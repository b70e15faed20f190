import Nibble.Proofs.Command
import Nibble.Proofs.Outcome

/-! # Encoding commands

The catalog accepts exactly the commands, and encodes each into its cells. An instruction is
accepted or refused in the same way at every address and on every line.
-/

namespace Nibble

theorem Operand.parse_eq_ok_iff {token : String} {line : Option Int} {op : Operand} :
    Operand.parse token line = .ok op ↔
      ∃ t, Term.ofToken? token = some t ∧ op = t.operand line := by
  unfold Term.ofToken? Operand.parse
  split
  · simp [Except.toOption, Operand.term, Term.operand, eq_comm]
  · split
    · split
      · simp [Except.toOption]
      · split <;> simp [Except.toOption, Operand.term, Term.operand, eq_comm]
    · split <;> simp [Except.toOption, Operand.term, Term.operand, eq_comm]

namespace Term

def toClass : Term → OperandClass
  | .inl _ => .register
  | .inr _ => .number

/-- Whether a term is accepted in the place of an operand. -/
def Fits (accepted : List OperandClass) (t : Term) : Prop :=
  t.toClass ∈ accepted

theorem toClass_operand (line : Option Int) (t : Term) :
    (t.operand line).toClass = t.toClass := by
  rcases t with r | x
  · rfl
  · cases x <;> rfl

theorem expect_operand_eq_ok_iff {line : Option Int} {t : Term} {accepted : List OperandClass}
    {mnemonic : String} {op : Operand} :
    (t.operand line).expect accepted mnemonic = .ok op ↔
      t.Fits accepted ∧ op = t.operand line := by
  rw [Operand.expect, toClass_operand, Fits]
  split
  next h => simp [h, eq_comm]
  next h => simp [h]

end Term

open List (Forall₂)

theorem Instruction.operands_eq_ok_iff {mnemonic : String} {line : Option Int}
    {tokens : List String} {shape : List (List OperandClass)} {ops : List Operand}
    (hl : tokens.length = shape.length) :
    Instruction.operands mnemonic line tokens shape = .ok ops ↔
      ∃ ts, tokens.mapM Term.ofToken? = some ts ∧ Forall₂ Term.Fits shape ts ∧
        ops = ts.map (Term.operand line) := by
  induction tokens generalizing shape ops with
  | nil =>
    obtain rfl := List.length_eq_zero_iff.mp hl.symm
    simp [Instruction.operands, pure, Except.pure, eq_comm]
  | cons token tokens ih =>
    cases shape with
    | nil => simp at hl
    | cons accepted shape =>
      simp only [Instruction.operands, bind_eq_ok_iff, Operand.parse_eq_ok_iff,
        ih (Nat.succ.inj hl), List.mapM_cons]
      constructor
      · rintro ⟨_, ⟨t, ht, rfl⟩, op, he, ops', ⟨ts, hts, hf, rfl⟩, ho⟩
        obtain ⟨hfit, rfl⟩ := Term.expect_operand_eq_ok_iff.mp he
        cases ho
        exact ⟨t :: ts, by simp [ht, hts], .cons hfit hf, rfl⟩
      · rintro ⟨ts', hm, hf, rfl⟩
        obtain ⟨t, ht, hm⟩ := Option.bind_eq_some_iff.mp hm
        obtain ⟨ts, hts, hm⟩ := Option.bind_eq_some_iff.mp hm
        cases hm
        cases hf with
        | cons hfit hf =>
          exact ⟨_, ⟨t, ht, rfl⟩, _, Term.expect_operand_eq_ok_iff.mpr ⟨hfit, rfl⟩, _,
            ⟨ts, hts, hf, rfl⟩, rfl⟩

theorem Instruction.operands_cons_eq_error_iff {mnemonic token : String} {line : Option Int}
    {tokens : List String} {accepted : List OperandClass} {shape : List (List OperandClass)}
    {fault : Fault} :
    Instruction.operands mnemonic line (token :: tokens) (accepted :: shape) = .error fault ↔
      Operand.parse token line = .error fault ∨ ∃ t, Term.ofToken? token = some t ∧
        ((t.operand line).expect accepted mnemonic = .error fault ∨
          t.Fits accepted ∧ Instruction.operands mnemonic line tokens shape = .error fault) := by
  rw [Instruction.operands, bind_eq_error_iff]
  apply or_congr_right
  constructor
  · rintro ⟨op, hp, h⟩
    obtain ⟨t, ht, rfl⟩ := Operand.parse_eq_ok_iff.mp hp
    refine ⟨t, ht, ?_⟩
    rcases bind_eq_error_iff.mp h with h | ⟨op, hx, h⟩
    · exact .inl h
    · rcases bind_eq_error_iff.mp h with h | ⟨ops, -, h⟩
      · exact .inr ⟨(Term.expect_operand_eq_ok_iff.mp hx).1, h⟩
      · cases h
  · rintro ⟨t, ht, h⟩
    refine ⟨t.operand line, Operand.parse_eq_ok_iff.mpr ⟨t, ht, rfl⟩, bind_eq_error_iff.mpr ?_⟩
    apply h.imp_right
    rintro ⟨hfit, h⟩
    refine ⟨t.operand line, Term.expect_operand_eq_ok_iff.mpr ⟨hfit, rfl⟩, ?_⟩
    exact bind_eq_error_iff.mpr (.inl h)

namespace Format

variable {ts : List Term}

theorem register_of_fits (h : Forall₂ Term.Fits register.shape ts) : ∃ r, ts = [.inl r] := by
  cases h with
  | @cons _ t _ _ ht h =>
    cases h
    cases t with
    | inl r => exact ⟨r, rfl⟩
    | inr x => simp [Term.Fits, Term.toClass] at ht

theorem print_of_fits (h : Forall₂ Term.Fits print.shape ts) : ∃ t, ts = [t] := by
  cases h with
  | @cons _ t _ _ _ h =>
    cases h
    exact ⟨t, rfl⟩

theorem move_of_fits (h : Forall₂ Term.Fits move.shape ts) : ∃ t u, ts = [t, u] := by
  cases h with
  | @cons _ t _ _ _ h =>
    cases h with
    | @cons _ u _ _ _ h =>
      cases h
      exact ⟨t, u, rfl⟩

theorem jump_of_fits (h : Forall₂ Term.Fits jump.shape ts) : ∃ x, ts = [.inr x] := by
  cases h with
  | @cons _ t _ _ ht h =>
    cases h
    cases t with
    | inl r => simp [Term.Fits, Term.toClass] at ht
    | inr x => exact ⟨x, rfl⟩

end Format

namespace Command

theorem exists_entry (c : Command Argument) (address : Int) (line : Option Int) :
    ∃ entry, Instruction.find? c.mnemonic = some entry ∧
      Forall₂ Term.Fits entry.format.shape c.terms ∧
      ∃ e, entry.format.encode (entry.base.map Int.ofNat) (c.terms.map (Term.operand line))
        address = .ok e ∧ e.cells = c.cells address line := by
  cases c with
  | halt | add | sub | bell => exact ⟨_, rfl, .nil, _, rfl, rfl⟩
  | inc r | dec r => cases r <;> exact ⟨_, rfl, .cons (.head _) .nil, _, rfl, rfl⟩
  | printRegister r => exact ⟨_, rfl, .cons (.head _) .nil, _, rfl, rfl⟩
  | print x => cases x <;> exact ⟨_, rfl, .cons (.tail _ (.head _)) .nil, _, rfl, rfl⟩
  | load x r =>
    cases x <;>
      exact ⟨_, rfl, .cons (.tail _ (.head _)) (.cons (.head _) .nil), _, rfl, rfl⟩
  | store r x =>
    cases x <;>
      exact ⟨_, rfl, .cons (.head _) (.cons (.tail _ (.head _)) .nil), _, rfl, rfl⟩
  | jump condition x =>
    cases condition <;> cases x <;> exact ⟨_, rfl, .cons (.head _) .nil, _, rfl, rfl⟩

end Command

namespace Instruction

/--
What an entry of the catalog accepts is a command, which has an encoding, or a move between two
operands of one class, which is refused.
-/
theorem encode_cases {entry : Instruction} (he : entry ∈ catalog) {ts : List Term}
    (hf : Forall₂ Term.Fits entry.format.shape ts) (address : Int) (line : Option Int) :
    (∃ c : Command Argument, entry.mnemonic = c.mnemonic ∧ ts = c.terms ∧
      ∃ e, entry.format.encode (entry.base.map Int.ofNat) (ts.map (Term.operand line)) address =
        .ok e) ∨
    (entry.mnemonic = "mov" ∧ (∃ t u, ts = [t, u] ∧ t.toClass = u.toClass) ∧
      entry.format.encode (entry.base.map Int.ofNat) (ts.map (Term.operand line)) address =
        .error (.cause .operandsAlike)) := by
  simp only [catalog, List.mem_cons, List.not_mem_nil, or_false] at he
  rcases he with rfl | rfl | rfl | rfl | rfl | rfl | rfl | rfl | rfl | rfl | rfl
  · cases hf; exact .inl ⟨.halt, rfl, rfl, _, rfl⟩
  · cases hf; exact .inl ⟨.add, rfl, rfl, _, rfl⟩
  · cases hf; exact .inl ⟨.sub, rfl, rfl, _, rfl⟩
  · obtain ⟨r, rfl⟩ := Format.register_of_fits hf; exact .inl ⟨.inc r, rfl, rfl, _, rfl⟩
  · obtain ⟨r, rfl⟩ := Format.register_of_fits hf; exact .inl ⟨.dec r, rfl, rfl, _, rfl⟩
  · cases hf; exact .inl ⟨.bell, rfl, rfl, _, rfl⟩
  · obtain ⟨r | x, rfl⟩ := Format.print_of_fits hf
    · exact .inl ⟨.printRegister r, rfl, rfl, _, rfl⟩
    · cases x <;> exact .inl ⟨.print _, rfl, rfl, _, rfl⟩
  · obtain ⟨r | x, s | y, rfl⟩ := Format.move_of_fits hf
    · exact .inr ⟨rfl, ⟨_, _, rfl, rfl⟩, rfl⟩
    · cases y <;> exact .inl ⟨.store r _, rfl, rfl, _, rfl⟩
    · cases x <;> exact .inl ⟨.load _ s, rfl, rfl, _, rfl⟩
    · cases x <;> cases y <;> exact .inr ⟨rfl, ⟨_, _, rfl, rfl⟩, rfl⟩
  · obtain ⟨x, rfl⟩ := Format.jump_of_fits hf; exact .inl ⟨.jump .always x, rfl, rfl, _, rfl⟩
  · obtain ⟨x, rfl⟩ := Format.jump_of_fits hf; exact .inl ⟨.jump .zero x, rfl, rfl, _, rfl⟩
  · obtain ⟨x, rfl⟩ := Format.jump_of_fits hf; exact .inl ⟨.jump .nonzero x, rfl, rfl, _, rfl⟩

theorem encode_command {c : Command Argument} {tokens : List String}
    (h : tokens.mapM Term.ofToken? = some c.terms) (address : Int) (line : Option Int) :
    encode c.mnemonic tokens address line = .ok (c.cells address line) := by
  obtain ⟨entry, he, hf, e, henc, hcells⟩ := c.exists_entry address line
  have hl : tokens.length = entry.format.shape.length :=
    (mapM_eq_some_iff.mp h).length_eq.trans hf.length_eq.symm
  simp only [encode, he, hl, ne_eq, not_true_eq_false, if_false, bind_eq_ok_iff]
  exact ⟨_, (operands_eq_ok_iff hl).mpr ⟨_, h, hf, rfl⟩, e, henc, congrArg _ hcells⟩

theorem exists_command_of_encode {mnemonic : String} {tokens : List String} {address : Int}
    {line : Option Int} {cells : List Cell}
    (h : encode mnemonic tokens address line = .ok cells) :
    ∃ c : Command Argument, mnemonic = c.mnemonic ∧ tokens.mapM Term.ofToken? = some c.terms := by
  unfold encode at h
  split at h
  · cases h
  next entry he =>
    dsimp only at h
    split at h
    · cases h
    next hl =>
      obtain ⟨ops, hops, h⟩ := bind_eq_ok_iff.mp h
      obtain ⟨e, henc, -⟩ := bind_eq_ok_iff.mp h
      obtain ⟨ts, hts, hf, rfl⟩ := (operands_eq_ok_iff (not_not.mp hl)).mp hops
      have hm : entry.mnemonic = mnemonic := by simpa using List.find?_some he
      rcases encode_cases (List.mem_of_find?_eq_some he) hf address line with
        ⟨c, hc, rfl, -⟩ | ⟨-, -, halike⟩
      · exact ⟨c, hm.symm.trans hc, hts⟩
      · cases henc.symm.trans halike

/-- An instruction can be encoded exactly if it is a command, and then into its cells. -/
theorem encode_eq_ok_iff {mnemonic : String} {tokens : List String} {address : Int}
    {line : Option Int} {cells : List Cell} :
    encode mnemonic tokens address line = .ok cells ↔
      ∃ c, Command.ofTokens mnemonic tokens = some c ∧ cells = c.cells address line := by
  simp only [Command.ofTokens_eq_some_iff]
  constructor
  · intro h
    obtain ⟨c, rfl, hts⟩ := exists_command_of_encode h
    rw [encode_command hts] at h
    cases h
    exact ⟨c, ⟨rfl, hts⟩, rfl⟩
  · rintro ⟨c, ⟨rfl, hts⟩, rfl⟩
    exact encode_command hts address line

theorem encode_eq_error_iff {mnemonic : String} {tokens : List String} {address : Int}
    {line : Option Int} {fault : Fault} :
    encode mnemonic tokens address line = .error fault ↔
      (find? mnemonic = none ∧ fault = .cause (.unknownInstruction mnemonic)) ∨
      ∃ entry, find? mnemonic = some entry ∧
        ((tokens.length ≠ entry.format.shape.length ∧ fault =
            .cause (.operandCount mnemonic entry.format.shape.length tokens.length)) ∨
          tokens.length = entry.format.shape.length ∧
            (operands mnemonic line tokens entry.format.shape = .error fault ∨
              mnemonic = "mov" ∧ fault = .cause .operandsAlike ∧
                ∃ t u, tokens.mapM Term.ofToken? = some [t, u] ∧ t.toClass = u.toClass)) := by
  unfold encode
  cases hfind : find? mnemonic with
  | none => simp [eq_comm]
  | some entry =>
    simp only [reduceCtorEq, false_and, false_or, Option.some.injEq, exists_eq_left']
    by_cases hlen : tokens.length = entry.format.shape.length
    · rw [if_neg (not_not.mpr hlen), bind_eq_error_iff]
      simp only [hlen, ne_eq, not_true_eq_false, false_and, false_or, true_and]
      apply or_congr_right
      constructor
      · rintro ⟨ops, hops, h⟩
        obtain ⟨ts, hts, hf, rfl⟩ := (operands_eq_ok_iff hlen).mp hops
        rcases bind_eq_error_iff.mp h with h | ⟨e, -, h⟩
        · rcases encode_cases (List.mem_of_find?_eq_some hfind) hf address line with
            ⟨-, -, -, e, hok⟩ | ⟨hmove, ⟨t, u, rfl, halike⟩, he⟩
          · cases h.symm.trans hok
          · cases h.symm.trans he
            have hm : entry.mnemonic = mnemonic := by simpa using List.find?_some hfind
            exact ⟨hm.symm.trans hmove, rfl, t, u, hts, halike⟩
        · cases h
      · rintro ⟨rfl, rfl, t, u, ht, halike⟩
        obtain rfl : entry = ⟨"mov", none, .move⟩ := Option.some.inj (hfind.symm.trans rfl)
        have hboth : ∀ v : Term, v.Fits [.register, .number] := by
          rintro (r | x)
          · exact .head _
          · exact .tail _ (.head _)
        have hf : Forall₂ Term.Fits Format.move.shape [t, u] :=
          .cons (hboth t) (.cons (hboth u) .nil)
        refine ⟨_, (operands_eq_ok_iff hlen).mpr ⟨_, ht, hf, rfl⟩, ?_⟩
        apply bind_eq_error_iff.mpr
        left
        rcases t with r | x <;> rcases u with s | y
        · rfl
        · cases halike
        · cases halike
        · cases x <;> cases y <;> rfl
    · simp [hlen, eq_comm]

end Instruction

end Nibble
