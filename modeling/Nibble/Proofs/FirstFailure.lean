import Nibble.Proofs.Diagnosis

/-! # First failures

The first line that fails decides how a text fails: the lines before it pass, and those after it
do not matter. No line fails for a symbol that is not bound, since that is known only after the
last one.
-/

namespace Nibble

open Text

/-! ## Faults that concern no symbol table -/

section Unlinked

variable {α β : Type} {x : Except Fault α} {f : α → Except Fault β}

/-- Whether an operation never fails for a symbol that is not bound. -/
def Unlinked (x : Except Fault α) : Prop :=
  ∀ name, x ≠ .error (.cause (.undefinedSymbol name))

theorem Unlinked.ok (a : α) : Unlinked (.ok a) := by
  rintro name ⟨⟩

theorem Unlinked.defect (d : Defect) : Unlinked (.error (.defect d) : Except Fault α) := by
  rintro name ⟨⟩

theorem Unlinked.bind (hx : Unlinked x) (hf : ∀ a, Unlinked (f a)) : Unlinked (x >>= f) := by
  intro name h
  rcases bind_eq_error_iff.mp h with h | ⟨a, -, h⟩
  · exact hx name h
  · exact hf a name h

theorem Unlinked.map {g : α → β} (hx : Unlinked x) : Unlinked (g <$> x) := by
  intro name h
  exact hx name (map_eq_error_iff.mp h)

end Unlinked

theorem Statement.unlinked_parse (raw : List Char) : Unlinked (parse raw) := by
  have hdata : ∀ s, Unlinked (parseData s) := by
    intro s
    unfold parseData
    split
    · rintro name ⟨⟩
    · split
      · exact .defect _
      · split <;> rintro name ⟨⟩
  have hinstruction : ∀ s, Unlinked (parseInstruction s) := by
    intro s
    unfold parseInstruction
    split
    · exact .defect _
    · exact .ok _
  unfold parse
  split
  · exact .ok _
  · exact (hdata _).map
  · split
    · exact .ok _
    · exact (hinstruction _).map

theorem Operand.unlinked_parse (token : String) (line : Option Int) :
    Unlinked (parse token line) := by
  unfold parse
  split
  · exact .ok _
  · split
    · split
      · exact .defect _
      · split <;> rintro name ⟨⟩
    · split <;> rintro name ⟨⟩

theorem Operand.unlinked_expect (op : Operand) (accepted : List OperandClass)
    (mnemonic : String) : Unlinked (op.expect accepted mnemonic) := by
  unfold expect
  split <;> rintro name ⟨⟩

theorem Format.unlinked_encode (format : Format) (base : Option Int) (ops : List Operand)
    (address : Int) : Unlinked (format.encode base ops address) := by
  unfold encode
  split
  case h_2 => split <;> rintro name ⟨⟩
  all_goals rintro name ⟨⟩

namespace Instruction

theorem unlinked_operands (mnemonic : String) (line : Option Int) (tokens : List String)
    (shape : List (List OperandClass)) : Unlinked (operands mnemonic line tokens shape) := by
  induction tokens generalizing shape with
  | nil => exact .ok _
  | cons token tokens ih =>
    cases shape with
    | nil => exact .ok _
    | cons accepted shape =>
      apply (Operand.unlinked_parse token line).bind
      intro op
      apply (Operand.unlinked_expect op accepted mnemonic).bind
      intro op
      exact (ih shape).bind fun ops => .ok _

theorem unlinked_encode (mnemonic : String) (tokens : List String) (address : Int)
    (line : Option Int) : Unlinked (encode mnemonic tokens address line) := by
  unfold encode
  split
  · rintro name ⟨⟩
  · dsimp only
    split
    · rintro name ⟨⟩
    · apply (unlinked_operands mnemonic line tokens _).bind
      intro ops
      exact Unlinked.bind (Format.unlinked_encode _ _ _ _) fun encoding => .ok _

end Instruction

namespace Image

variable (image : Image)

theorem unlinked_setCell (address : Int) (cell : Cell) : Unlinked (image.setCell address cell) := by
  unfold setCell
  split
  · exact .ok _
  · exact .defect _

theorem unlinked_insertCode (cell : Cell) : Unlinked (image.insertCode cell) := by
  unfold insertCode
  split
  · rintro name ⟨⟩
  · exact (image.unlinked_setCell _ _).bind fun _ => .ok _

theorem unlinked_insertData (cell : Cell) : Unlinked (image.insertData cell) := by
  unfold insertData
  split
  · rintro name ⟨⟩
  · exact (image.unlinked_setCell _ _).bind fun _ => .ok _

theorem unlinked_insertCells (cells : List Cell) : Unlinked (image.insertCells cells).2 := by
  induction cells generalizing image with
  | nil => exact .ok _
  | cons cell cells ih =>
    rw [insertCells]
    split
    next filled _ => exact ih filled
    next fault h =>
      rintro name ⟨⟩
      exact image.unlinked_insertCode cell name h

theorem unlinked_checks (limit : Int) :
    Unlinked (do image.checkOverlap; image.checkRange limit) := by
  have hoverlap : Unlinked image.checkOverlap := by
    unfold checkOverlap
    split <;> rintro name ⟨⟩
  have hrange : Unlinked (image.checkRange limit) := by
    unfold checkRange
    split
    · rintro name ⟨⟩
    · split <;> rintro name ⟨⟩
  exact hoverlap.bind fun _ => hrange

end Image

/-- Whether a failure is a fault of one line, at the place of that line or at none. -/
def Failure.IsLocal (place : Place) (failure : Failure) : Prop :=
  ∃ fault p, failure = Fault.placed p fault ∧ (p = .unknown ∨ p = place) ∧
    ∀ name, fault ≠ .cause (.undefinedSymbol name)

def Source.join (raws : List (List Char)) : String :=
  String.ofList (['\n'].intercalate raws)

theorem Source.not_mem_of_mem_lines {s raw : List Char} (h : raw ∈ lines s) : '\n' ∉ raw := by
  unfold lines at h
  induction s generalizing raw with
  | nil =>
    obtain rfl := List.mem_singleton.mp h
    exact List.not_mem_nil
  | cons c s ih =>
    rw [List.splitOn_cons_eq_if_modifyHead] at h
    split at h
    · rcases List.mem_cons.mp h with rfl | h
      · exact List.not_mem_nil
      · exact ih h
    next hc =>
      obtain ⟨first, rest, hs⟩ := List.exists_cons_of_ne_nil (List.splitOn_ne_nil '\n' s)
      rw [hs] at h ih
      rcases List.mem_cons.mp h with rfl | h
      · have hne : '\n' ≠ c := fun he => hc (beq_iff_eq.mpr he.symm)
        exact List.not_mem_cons_of_ne_of_not_mem hne (ih (.head _))
      · exact ih (.tail _ h)

theorem Source.lines_join {raws : List (List Char)} (hne : raws ≠ [])
    (h : ∀ raw ∈ raws, '\n' ∉ raw) : lines (join raws).toList = raws := by
  rw [join, String.toList_ofList]
  exact List.splitOn_intercalate '\n' h hne

namespace Assembler

open Source

variable {a a' b : Assembler} {s : Statement} {source : String} {line : Option Int}
  {raw : List Char} {failure : Failure} {row : Row} {place : Place} {text text' : String}

theorem isLocal_of_record (h : a.record row = (a', .error failure)) : failure.IsLocal place := by
  unfold record at h
  split at h
  · cases h
  next fault hf =>
    cases h
    refine ⟨fault, .unknown, rfl, .inl rfl, ?_⟩
    rintro name rfl
    exact a.image.unlinked_checks _ name hf

theorem isLocal_of_enter (h : a.enter source line s = (a', .error failure)) :
    failure.IsLocal ⟨a.file, line⟩ := by
  cases s with
  | data name value =>
    simp only [enter] at h
    split at h
    next fault hi =>
      cases h
      refine ⟨fault, .unknown, rfl, .inl rfl, ?_⟩
      rintro name rfl
      exact a.image.unlinked_insertData _ name hi
    next => exact isLocal_of_record h
  | label name => exact isLocal_of_record h
  | instruction mnemonic tokens =>
    simp only [enter] at h
    split at h
    next fault he =>
      cases h
      refine ⟨fault, _, rfl, .inr rfl, ?_⟩
      rintro name rfl
      exact Instruction.unlinked_encode _ _ _ _ name he
    next cells _ =>
      split at h
      next fault hi =>
        cases h
        refine ⟨fault, .unknown, rfl, .inl rfl, ?_⟩
        rintro name rfl
        exact a.image.unlinked_insertCells cells name (congrArg Prod.snd hi)
      next => exact isLocal_of_record h

theorem isLocal_of_addLine (h : a.addLine raw line = (a', .error failure)) :
    failure.IsLocal ⟨a.file, line⟩ := by
  unfold addLine at h
  split at h
  next fault hp =>
    cases h
    refine ⟨fault, _, rfl, .inr rfl, ?_⟩
    rintro name rfl
    exact Statement.unlinked_parse raw name hp
  next => cases h
  next => exact isLocal_of_enter h

theorem assemble_of_addLines_error {b : Assembler}
    (h : a.addLines 1 (lines text.toList) = (b, .error failure)) :
    a.assemble text = (b, .error failure) := by
  rw [assemble, h]

theorem addLines_of_assemble_error (h : a.assemble text = (b, .error failure))
    (hs : (a.feed (ofText text)).2 ≠ .ok ()) :
    a.addLines 1 (lines text.toList) = (b, .error failure) := by
  rcases hb : a.addLines 1 (lines text.toList) with ⟨b', failure' | ⟨⟩⟩
  · rw [← assemble_of_addLines_error hb, h]
  · exact absurd (congrArg Prod.snd (addLines_eq_ok_iff.mp hb)) hs

/-- Lines fail with a diagnostic at the first that fails, and the diagnostic has its number. -/
theorem addLines_eq_diagnostic {raws : List (List Char)} {d : Diagnostic}
    (h : a.addLines 1 raws = (b, .error (.diagnostic d))) :
    ∃ before raw after c d', raws = before ++ raw :: after ∧
      a.addLines 1 before = (c, .ok ()) ∧
      c.addLine (trimEnd (· = '\r') raw) (some (1 + before.length)) =
        (b, .error (.diagnostic d')) ∧
      d = ⟨d'.cause, ⟨a.file, some (1 + before.length)⟩⟩ ∧
      ∀ name, d'.cause ≠ .undefinedSymbol name := by
  obtain ⟨before, raw, after, c, failure, hraws, hbefore, he, hf⟩ := addLines_eq_error_iff.mp h
  have hc : c.file = a.file := by
    have hfile := a.file_feed (numbered 1 before)
    rwa [addLines_eq_ok_iff.mp hbefore] at hfile
  have hb : b.file = a.file := by
    have hfile := c.file_addLine (trimEnd (· = '\r') raw) (some (1 + before.length))
    rw [he] at hfile
    exact hfile.trans hc
  obtain ⟨fault, p, rfl, hp, hfault⟩ := isLocal_of_addLine he
  cases fault with
  | defect => cases hf
  | cause cause =>
    refine ⟨before, raw, after, c, ⟨cause, p⟩, hraws, hbefore, he, ?_, ?_⟩
    · injection hf with hd
      rcases hp with rfl | rfl
      · rw [hd, hb]
        rfl
      · rw [hd, hb]
        rfl
    · rintro name rfl
      exact hfault name rfl

theorem addLines_of_isPrefix {c : Assembler} {n : Int} {before raws : List (List Char)}
    (hbefore : a.addLines n before = (c, .ok ()))
    (he : c.addLine (trimEnd (· = '\r') raw) (some (n + before.length)) = (b, .error failure))
    (h : before ++ [raw] <+: raws) :
    a.addLines n raws = (b, .error (b.locate (n + before.length) failure)) := by
  obtain ⟨after, rfl⟩ := h
  rw [List.append_assoc, addLines_append hbefore, List.singleton_append, addLines, he]

theorem assemble_join {before : List (List Char)} {c : Assembler}
    (hlines : ∀ raw ∈ before, '\n' ∉ raw) (h : a.addLines 1 before = (c, .ok ())) :
    (a.assemble (join before)).2 = .ok () ∨
      ∃ r : Reference, (a.assemble (join before)).2 = .error (r.undefined a.file) := by
  have hc : a.addLines 1 (lines (join before).toList) = (c, .ok ()) := by
    rcases before.eq_nil_or_concat with rfl | ⟨front, last, rfl⟩
    · cases h
      rfl
    · rw [lines_join (by simp) hlines, h]
  have hfile : c.file = a.file := by
    have hfile := a.file_feed (numbered 1 before)
    rwa [addLines_eq_ok_iff.mp h] at hfile
  rw [assemble_of_addLines hc, hfile]
  cases c.resolve.2 with
  | ok => exact .inl rfl
  | error r => exact .inr ⟨r, rfl⟩

/--
How a text is refused at a line: all lines before it pass, and the diagnostic names this line. The
lines before it make a text that is assembled, unless a symbol in it is not bound. Every text that
begins with the same lines up to this one is refused in the same way, and leaves the same assembler
with the same warnings.
-/
structure RefusedAt (a b : Assembler) (text : String) (d : Diagnostic)
    (before : List (List Char)) (raw : List Char) : Prop where
  lines : before ++ [raw] <+: lines text.toList
  fails : ∃ c place, a.feed (numbered 1 before) = (c, .ok ()) ∧
    c.addLine (trimEnd (· = '\r') raw) (some (1 + before.length)) =
      (b, .error (.diagnostic ⟨d.cause, place⟩))
  place : d.place = ⟨a.file, some (1 + before.length)⟩
  earlier : (a.assemble (join before)).2 = .ok () ∨
    ∃ r : Reference, (a.assemble (join before)).2 = .error (r.undefined a.file)
  later : ∀ text' : String, before ++ [raw] <+: Text.lines text'.toList →
    a.assemble text' = (b, .error (.diagnostic d))

/--
A text that is refused while its lines are read is refused at the first line that fails, whatever
follows. A symbol is reported as not bound only if all lines pass.
-/
theorem exists_refusedAt_of_assemble (a : Assembler) (text : String) :
    (∀ b d, a.assemble text = (b, .error (.diagnostic d)) → (a.feed (ofText text)).2 ≠ .ok () →
      ∃ before raw, a.RefusedAt b text d before raw) ∧
    ∀ name place, (a.assemble text).2 = .error (.diagnostic ⟨.undefinedSymbol name, place⟩) →
      (a.feed (ofText text)).2 = .ok () := by
  constructor
  · intro b d h hs
    obtain ⟨before, raw, after, c, d', hraws, hbefore, he, hd, -⟩ :=
      addLines_eq_diagnostic (addLines_of_assemble_error h hs)
    have hbegins : before ++ [raw] <+: lines text.toList :=
      ⟨after, by rw [hraws, List.append_assoc, List.singleton_append]⟩
    have hlines : ∀ r ∈ before, '\n' ∉ r := by
      intro r hr
      exact not_mem_of_mem_lines (hbegins.subset (List.mem_append_left _ hr))
    refine ⟨before, raw, hbegins, ⟨c, d'.place, addLines_eq_ok_iff.mp hbefore, ?_⟩, ?_,
      assemble_join hlines hbefore, ?_⟩
    · rw [hd]
      exact he
    · rw [hd]
    · intro text' hbegins'
      have hsame := addLines_of_isPrefix hbefore he hbegins
      rw [addLines_of_assemble_error h hs] at hsame
      rw [hsame]
      exact assemble_of_addLines_error (addLines_of_isPrefix hbefore he hbegins')
  · intro name place h
    by_contra hs
    obtain ⟨_, _, _, _, d', -, -, -, hd, hcause⟩ :=
      addLines_eq_diagnostic (addLines_of_assemble_error (Prod.ext rfl h) hs)
    exact hcause name (congrArg Diagnostic.cause hd).symm

/-- The second line is refused, and the line before it refers to a symbol that is not bound. -/
theorem exists_refusedAt_of_assemble_second_line :
    let a := new (some "prog.s")
    let text := "jmp x\nbogus\nmov %r0, %r1"
    let d : Diagnostic := ⟨.unknownInstruction "bogus", ⟨some "prog.s", some 2⟩⟩
    let undefined : Diagnostic := ⟨.undefinedSymbol "x", ⟨some "prog.s", some 1⟩⟩
    (∃ b, a.assemble text = (b, .error (.diagnostic d)) ∧ (a.feed (ofText text)).2 ≠ .ok () ∧
      ∃ before raw, a.RefusedAt b text d before raw) ∧
    (a.assemble "jmp x").2 = .error (.diagnostic undefined) ∧
      (a.feed (ofText "jmp x")).2 = .ok () := by
  intro a text d undefined
  have h : (a.assemble text).2 = .error (.diagnostic d) := by decide +kernel
  have hs : (a.feed (ofText text)).2 ≠ .ok () := by decide +kernel
  have hundefined : (a.assemble "jmp x").2 = .error (.diagnostic undefined) := by rfl
  exact ⟨⟨_, Prod.ext rfl h, hs,
      (exists_refusedAt_of_assemble a text).1 _ d (Prod.ext rfl h) hs⟩,
    hundefined, (exists_refusedAt_of_assemble a "jmp x").2 _ _ hundefined⟩

end Assembler

end Nibble
