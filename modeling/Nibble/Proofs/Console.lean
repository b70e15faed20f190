import Nibble.Proofs.Resumption

/-! # The console

A print and a bell leave one token each on the console, and nothing else does but the newline of
the halt. How the bell sounds has no bearing on what the machine does.
-/

namespace Nibble

/-- Whether a signal is a bell or a number below sixteen. -/
def Signal.IsToken (s : Signal) : Prop :=
  s = .bell ∨ ∃ n : Nat, n < memorySize ∧ s = .number n

namespace Machine

/-- What the next step prints: the operand of a print, or a bell. -/
def token? (m : Machine) : Option Signal :=
  if m.next? = some .print then some (.number m.operand)
  else if m.next? = some .bell then some .bell
  else none

/-- What the first `n` steps print, in order. -/
def tokens (m : Machine) (n : Nat) : List Signal :=
  (List.range n).filterMap fun k => (m.stepTimes k).toOption.bind token?

def withStyle (m : Machine) (style : BellStyle) : Machine :=
  { m with bellStyle := style }

variable {m m' : Machine} {op : Opcode} {operand : Int} {k n : Nat} {style : BellStyle}

/-! ## One token a step -/

theorem output_set (m : Machine) (r : Register) (value : Int) :
    (m.set r value).output = m.output := by
  cases r <;> rfl

theorem output_of_execute (h : m.execute op operand = .ok m') :
    m'.output.toList = m.output.toList ++
      ((if op = .print then some (.number operand) else if op = .bell then some .bell
        else none).toList ++ if op = .halt then [.newline] else []) := by
  cases op with
  | load r =>
    simp only [execute] at h
    split at h <;> cases h
    simp [output_set]
  | store r =>
    simp only [execute] at h
    split at h <;> cases h
    simp
  | inc r | dec r =>
    cases h
    simp [output_set]
  | jumpZero | jumpNonzero =>
    cases h
    split <;> simp
  | halt | bell | print =>
    cases h
    simp [emit]
  | add | sub | jump =>
    cases h
    simp

theorem InBounds.output_step (h : m.InBounds) (hs : m.step = .ok m') :
    m'.output.toList = m.output.toList ++
      (m.token?.toList ++ if m.next? = some .halt then [.newline] else []) := by
  obtain ⟨op, place, m₁, hnext, -, he, rfl⟩ := h.exists_execute_of_step hs
  have hout := output_of_execute he
  rw [token?, hnext]
  simp only [Option.some_inj]
  exact hout

theorem InBounds.halted_step_iff (h : m.InBounds) (hs : m.step = .ok m') :
    m'.halted ↔ m.halted ∨ m.next? = some .halt := by
  obtain ⟨op, place, m₁, hnext, -, he, rfl⟩ := h.exists_execute_of_step hs
  have hhalted := halted_of_execute he
  rw [hnext, Option.some_inj]
  exact hhalted

theorem stepTimes_succ (hm : m.stepTimes k = .ok m') : m.stepTimes (k + 1) = m'.step := by
  rw [stepTimes_add hm, stepTimes_one]

theorem tokens_succ (hm : m.stepTimes k = .ok m') :
    m.tokens (k + 1) = m.tokens k ++ m'.token?.toList := by
  unfold tokens
  rw [List.range_succ, List.filterMap_append]
  simp [Except.toOption, hm, List.filterMap_cons]
  cases m'.token? <;> rfl

/-- A machine that has not halted leaves the tokens of its steps, and a newline if the last of them
halts. -/
theorem InBounds.output_stepTimes (h : m.InBounds) (hn : ¬ m.halted) (hm : m.stepTimes k = .ok m')
    (hbefore : ∀ j < k, ∃ mⱼ, m.stepTimes j = .ok mⱼ ∧ ¬ mⱼ.halted) :
    m'.output.toList =
      m.output.toList ++ (m.tokens k ++ if m'.halted then [.newline] else []) := by
  induction k generalizing m' with
  | zero =>
    cases hm
    simp [tokens, hn]
  | succ k ih =>
    obtain ⟨mₖ, hmₖ, hnₖ⟩ := hbefore k (Nat.lt_succ_self k)
    have hout := ih hmₖ fun j hj => hbefore j (Nat.lt_succ_of_lt hj)
    have hin := (h.of_stepTimes hmₖ).1
    rw [stepTimes_succ hmₖ] at hm
    have hhalted : m'.halted ↔ mₖ.next? = some .halt := by
      rw [hin.halted_step_iff hm, or_iff_right hnₖ]
    rw [hin.output_step hm, hout, tokens_succ hmₖ]
    simp [hnₖ, hhalted]

theorem InBounds.exists_stepTimes_of_runFor (h : m.InBounds) (n : Nat) : ∃ k m',
    m.stepTimes k = .ok m' ∧ (∀ j < k, ∃ mⱼ, m.stepTimes j = .ok mⱼ ∧ ¬ mⱼ.halted) ∧
      (m'.halted ∧ m.runFor n = (.halted, m') ∨
        ¬ m'.halted ∧ k = n ∧ m.runFor n = (.unfinished, m')) := by
  by_cases hr : (m.runFor n).1 = .halted
  · obtain ⟨k, hk, hhalts⟩ := h.runFor_eq_halted_iff.mp hr
    obtain ⟨m', hm, hh⟩ := hhalts.1
    exact ⟨k, m', hm, hhalts.2, .inl ⟨hh, h.runFor_of_haltsAt hhalts hm hk⟩⟩
  · obtain ⟨left, hleft, hm, hn⟩ := h.exists_left hr
    refine ⟨n, left, hm, ?_, .inr ⟨hn, rfl, hleft⟩⟩
    intro j hj
    obtain ⟨mⱼ, hmⱼ, -⟩ := h.stepTimes j
    exact ⟨mⱼ, hmⱼ, h.not_halted_of_le (Nat.le_of_lt hj) hmⱼ hm hn⟩

theorem InBounds.isToken_of_token? (h : m.InBounds) {s : Signal} (hs : m.token? = some s) :
    s.IsToken := by
  unfold token? at hs
  split at hs
  · cases hs
    obtain ⟨n, hlt, hn⟩ := h.isNibble_operand.exists_nat
    rw [hn]
    exact .inr ⟨n, hlt, rfl⟩
  · split at hs
    · cases hs
      exact .inl rfl
    · cases hs

theorem InBounds.isToken_of_mem_tokens (h : m.InBounds) {s : Signal} (hs : s ∈ m.tokens n) :
    s.IsToken := by
  obtain ⟨k, -, hk⟩ := List.mem_filterMap.mp hs
  obtain ⟨m', hm, h', -⟩ := h.stepTimes k
  rw [hm] at hk
  exact h'.isToken_of_token? hk

/-! ## Two kinds of bell -/

theorem withStyle_eq_following (m : Machine) (style : BellStyle) :
    m.withStyle style = m.following (boot [] style) := by
  simp [withStyle, following, boot]

theorem stepTimes_withStyle (style : BellStyle) (hm : m.stepTimes k = .ok m') :
    (m.withStyle style).stepTimes k = .ok (m'.withStyle style) := by
  rw [withStyle_eq_following, withStyle_eq_following]
  exact stepTimes_following _ hm

theorem InBounds.withStyle (h : m.InBounds) (style : BellStyle) : (m.withStyle style).InBounds :=
  ⟨h.of_eq rfl rfl rfl, h.ip_nonneg, h.ip_le⟩

theorem InBounds.tokens_withStyle (h : m.InBounds) (style : BellStyle) (n : Nat) :
    (m.withStyle style).tokens n = m.tokens n := by
  apply List.filterMap_congr
  intro k _
  obtain ⟨m', hm, -⟩ := h.stepTimes k
  rw [hm, stepTimes_withStyle style hm]
  rfl

theorem InBounds.runFor_withStyle (h : m.InBounds) (style : BellStyle) (n : Nat) :
    (m.withStyle style).runFor n = ((m.runFor n).1, (m.runFor n).2.withStyle style) := by
  induction n generalizing m with
  | zero => rfl
  | succ n ih =>
    by_cases hh : m.halted
    · rw [runFor_of_halted hh, runFor_of_halted (by exact hh)]
    · obtain ⟨m', hs, h', -⟩ := h.step
      have hs' : (m.withStyle style).step = .ok (m'.withStyle style) := by
        rw [← stepTimes_one]
        exact stepTimes_withStyle style ((stepTimes_one m).trans hs)
      rw [runFor_succ hh hs, runFor_succ (by exact hh) hs', ih h']

theorem InBounds.run_withStyle (h : m.InBounds) (style : BellStyle) (limit : Option Int) :
    (m.withStyle style).run limit = ((m.run limit).1, (m.run limit).2.withStyle style) := by
  cases limit with
  | none => exact h.runFor_withStyle style m.horizon
  | some limit => exact h.runFor_withStyle style _

theorem bellStyle_stepTimes (hm : m.stepTimes k = .ok m') : m'.bellStyle = m.bellStyle := by
  have hstyle := stepTimes_withStyle m.bellStyle hm
  have hself : m.withStyle m.bellStyle = m := rfl
  rw [hself, hm] at hstyle
  have hm' : m' = m'.withStyle m.bellStyle := Except.ok.inj hstyle
  exact (congrArg bellStyle hm').trans rfl

/-! ## The text of a run -/

/-- What is heard as a bell in one style is read as a word in the other. -/
def spellOut (c : Char) : List Char :=
  if c = '\x07' then "DING ".toList else [c]

theorem toList_text_of_isToken {s : Signal} (h : s.IsToken) :
    (s.text .spell).toList = (s.text .ring).toList.flatMap spellOut := by
  have hplain : ∀ t : List Char, '\x07' ∉ t → t.flatMap spellOut = t := by
    intro t ht
    induction t with
    | nil => rfl
    | cons c t ih =>
      obtain ⟨hc, ht⟩ := not_or.mp (mt List.mem_cons.mpr ht)
      rw [List.flatMap_cons, ih ht, spellOut, if_neg (Ne.symm hc)]
      rfl
  rcases h with rfl | ⟨n, hn, rfl⟩
  · rfl
  · have hall : ∀ n < memorySize, '\x07' ∉ (toString n ++ " ").toList := by decide
    exact (hplain _ (hall n hn)).symm

theorem text_eq_join (m : Machine) :
    m.text = String.join (m.output.toList.map (Signal.text m.bellStyle)) :=
  rfl

theorem text_of_output {tokens : List Signal}
    (h : m.output.toList = tokens ++ if m.halted then [.newline] else []) :
    m.text = String.join (tokens.map (Signal.text m.bellStyle)) ++
      if m.halted then "\n" else "" := by
  rw [text_eq_join, h, List.map_append, String.join_append]
  split <;> rfl

/-- To spell the bells out is to replace them in the text. -/
theorem toList_text_withStyle_of_output {tokens : List Signal} (hstyle : m.bellStyle = .ring)
    (htokens : ∀ s ∈ tokens, s.IsToken)
    (h : m.output.toList = tokens ++ if m.halted then [.newline] else []) :
    (m.withStyle .spell).text.toList = m.text.toList.flatMap spellOut := by
  have hspell : (m.withStyle .spell).text = String.join (tokens.map (Signal.text .spell)) ++
      if m.halted then "\n" else "" :=
    text_of_output h
  rw [hspell, text_of_output h, hstyle, String.toList_append, String.toList_append,
    String.toList_join, String.toList_join, List.flatMap_append, List.flatMap_assoc,
    List.flatMap_map, List.flatMap_map]
  congr 1
  · apply List.flatMap_congr
    intro s hs
    exact toList_text_of_isToken (htokens s hs)
  · split <;> rfl

theorem InBounds.exists_output_of_run (h : m.InBounds) (hn : ¬ m.halted) (limit : Option Int) :
    ∃ k m', m.stepTimes k = .ok m' ∧
      (∀ j < k, ∃ mⱼ, m.stepTimes j = .ok mⱼ ∧ ¬ mⱼ.halted) ∧
      (m'.halted ∧ m.run limit = (.halted, m') ∨ ¬ m'.halted ∧ m.run limit = (.unfinished, m') ∧
        ∀ n, limit = some n → k = (n - m.steps).toNat) ∧
      m'.output.toList =
        m.output.toList ++ (m.tokens k ++ if m'.halted then [.newline] else []) := by
  obtain ⟨n, hrun, hlimit⟩ : ∃ n : Nat, m.run limit = m.runFor n ∧
      ∀ l, limit = some l → n = (l - m.steps).toNat := by
    cases limit with
    | none => exact ⟨_, rfl, nofun⟩
    | some l => exact ⟨_, rfl, fun _ hl => Option.some.inj hl ▸ rfl⟩
  obtain ⟨k, m', hm, hbefore, hend⟩ := h.exists_stepTimes_of_runFor n
  refine ⟨k, m', hm, hbefore, ?_, h.output_stepTimes hn hm hbefore⟩
  rw [hrun]
  apply hend.imp_right
  rintro ⟨hn', rfl, hr⟩
  exact ⟨hn', hr, hlimit⟩

/--
The text of a run of a loaded program is that of its tokens, one for each print and each bell that
is executed, and a newline if the program halts. How the bell sounds bears on nothing else: two
machines that differ in it have the same cells, registers, pointer and tokens after each step, their
runs end alike, and their texts differ in the bells only.
-/
theorem text_run_of_load {text : String} {memory : List Int}
    (h : Program.load text = .ok memory) :
    (∀ style limit, ∃ k m, (boot memory style).stepTimes k = .ok m ∧
      (∀ j < k, ∃ mⱼ, (boot memory style).stepTimes j = .ok mⱼ ∧ ¬ mⱼ.halted) ∧
      (m.halted ∧ (boot memory style).run limit = (.halted, m) ∨
        ¬ m.halted ∧ (boot memory style).run limit = (.unfinished, m) ∧
          ∀ n, limit = some n → k = n.toNat) ∧
      (∀ s ∈ (boot memory style).tokens k, s.IsToken) ∧
      m.text = String.join (((boot memory style).tokens k).map (Signal.text style)) ++
        if m.halted then "\n" else "") ∧
    (∀ k, ∃ m, (boot memory .ring).stepTimes k = .ok m ∧
      (boot memory .spell).stepTimes k = .ok (m.withStyle .spell)) ∧
    (∀ k, (boot memory .spell).tokens k = (boot memory .ring).tokens k) ∧
    ∀ limit, ∃ ending m, (boot memory .ring).run limit = (ending, m) ∧
      (boot memory .spell).run limit = (ending, m.withStyle .spell) ∧
      (m.withStyle .spell).text.toList = m.text.toList.flatMap spellOut := by
  have hboot : ∀ style, (boot memory style).InBounds := fun style => inBounds_boot_of_load style h
  have hspell : boot memory .spell = (boot memory .ring).withStyle .spell := rfl
  refine ⟨?_, ?_, ?_, ?_⟩
  · intro style limit
    obtain ⟨k, m, hm, hbefore, hend, hout⟩ := (hboot style).exists_output_of_run nofun limit
    have hstyle : m.bellStyle = style := bellStyle_stepTimes hm
    have hsteps : ∀ n : Int, n - (boot memory style).steps = n := Int.sub_zero
    simp only [hsteps] at hend
    refine ⟨k, m, hm, hbefore, hend, fun s hs => (hboot style).isToken_of_mem_tokens hs, ?_⟩
    rw [text_of_output hout, hstyle]
  · intro k
    obtain ⟨m, hm, -⟩ := (hboot .ring).stepTimes k
    exact ⟨m, hm, hspell ▸ stepTimes_withStyle .spell hm⟩
  · exact (hboot .ring).tokens_withStyle .spell
  · intro limit
    obtain ⟨k, m, hm, -, hend, hout⟩ := (hboot .ring).exists_output_of_run nofun limit
    have hrun := (hboot .ring).run_withStyle .spell limit
    have htext := toList_text_withStyle_of_output (bellStyle_stepTimes hm)
      (fun s hs => (hboot .ring).isToken_of_mem_tokens hs) hout
    rcases hend with ⟨-, hr⟩ | ⟨-, hr, -⟩
    · rw [hr] at hrun
      exact ⟨_, m, hr, hrun, htext⟩
    · rw [hr] at hrun
      exact ⟨_, m, hr, hrun, htext⟩

/-- A program that rings the bell, prints a number and halts. -/
theorem text_run_of_load_bell :
    let memory : List Int := [7, 8, 3, 0, 0, 0, 0, 0, 0, 0, 0, 0, 0, 0, 0, 0]
    let ring := boot memory .ring
    let spell := boot memory .spell
    let done : Machine :=
      { ring with ip := 4, steps := 3, halted := true, output := #[.bell, .number 3, .newline] }
    Program.load "7 8 3" = .ok memory ∧ ring.run (some 3) = (.halted, done) ∧
      ring.tokens 3 = [.bell, .number 3] ∧ (∀ s ∈ ring.tokens 3, s.IsToken) ∧
      done.text = String.join ((ring.tokens 3).map (Signal.text .ring)) ++ "\n" ∧
      spell.tokens 3 = ring.tokens 3 ∧ spell.run (some 3) = (.halted, done.withStyle .spell) ∧
      (done.withStyle .spell).text.toList = done.text.toList.flatMap spellOut ∧
      done.text = "\x073 \n" ∧ (done.withStyle .spell).text = "DING 3 \n" := by
  intro memory ring spell done
  have h : Program.load "7 8 3" = .ok memory := by rfl
  have hrun : ring.run (some 3) = (.halted, done) := by rfl
  obtain ⟨htext, -, htokens, hsame⟩ := text_run_of_load h
  obtain ⟨k, m, hm, -, hend, hall, hjoin⟩ := htext .ring (some 3)
  obtain rfl : m = done := by
    rcases hend with ⟨-, hr⟩ | ⟨-, hr, -⟩
    · exact congrArg Prod.snd (hr.symm.trans hrun)
    · cases hr.symm.trans hrun
  obtain rfl : k = 3 := by
    have hsteps := ((inBounds_boot_of_load .ring h).of_stepTimes hm).2
    change (3 : Int) = 0 + k at hsteps
    omega
  obtain ⟨ending, m, hr, hspell, hbells⟩ := hsame (some 3)
  cases hr.symm.trans hrun
  exact ⟨h, hrun, rfl, hall, hjoin, htokens 3, hspell, hbells, by decide, by decide⟩

end Machine

end Nibble
