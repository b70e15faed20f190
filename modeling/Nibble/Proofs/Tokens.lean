import Mathlib.Data.List.TakeWhile
import Nibble.Proofs.Source

/-! # Tokens on a line

An operand on the line of an instruction can be replaced by another token. Nothing else on the line
is read in another way for it.
-/

namespace Nibble

open Text

namespace Text

variable {p : Char → Bool} {c : Char}

theorem trimEnd_append_cons (hc : p c = false) (s t : List Char) :
    trimEnd p (s ++ c :: t) = s ++ c :: trimEnd p t := by
  unfold trimEnd
  rw [List.reverse_append, List.reverse_cons, List.append_assoc, List.dropWhile_append]
  by_cases h : t.reverse.dropWhile p = [] <;> simp [h, hc]

theorem trimEnd_isPrefix (p : Char → Bool) (s : List Char) : trimEnd p s <+: s := by
  rw [trimEnd, ← List.reverse_suffix, List.reverse_reverse]
  exact List.dropWhile_suffix p

theorem runs_append_cons (hc : p c = false) (s t : List Char) :
    runs p (s ++ c :: t) = runs p s ++ runs p t := by
  rw [runs, List.splitOnP_append_cons _ _ (by simp [hc]), List.filter_append]
  rfl

theorem runs_dropWhile {q : Char → Bool} (hq : ∀ c, q c → p c = false) (s t : List Char) :
    runs p (s.dropWhile q ++ t) = runs p (s ++ t) := by
  have hgap : ∀ c ∈ s.takeWhile q, p c = false := fun c hc => hq c (List.mem_takeWhile_imp hc)
  rw [← runs_append_of_forall_not hgap, ← List.append_assoc, List.takeWhile_append_dropWhile]

theorem toNat_of_isWordChar (h : isWordChar c) : 48 ≤ c.toNat ∧ c.toNat ≤ 122 := by
  have hcases : (c.isUpper || c.isLower || c.isDigit || c = '_') = true := h
  have hupper : c.isUpper = decide ('A'.val ≤ c.val ∧ c.val ≤ 'Z'.val) := rfl
  have hlower : c.isLower = (decide ('a'.val ≤ c.val) && decide (c.val ≤ 'z'.val)) := rfl
  simp only [hupper, hlower, Bool.or_eq_true, Bool.and_eq_true, decide_eq_true_eq,
    UInt32.le_iff_toNat_le, Char.isDigit_iff_toNat] at hcases
  rcases hcases with ((⟨hlo, hhi⟩ | ⟨hlo, hhi⟩) | ⟨hlo, hhi⟩) | rfl
  · exact ⟨Nat.le_trans (by decide) hlo, Nat.le_trans hhi (by decide)⟩
  · exact ⟨Nat.le_trans (by decide) hlo, Nat.le_trans hhi (by decide)⟩
  · exact ⟨Nat.le_trans (by decide) hlo, Nat.le_trans hhi (by decide)⟩
  · decide

end Text

namespace Statement

theorem toNat_of_isSeparator {c : Char} (h : isSeparator c) : c.toNat ≤ 44 ∨ 133 ≤ c.toNat := by
  simp only [isSeparator, isBlank, isAsciiBlank, Bool.or_eq_true, Bool.and_eq_true,
    decide_eq_true_eq, ← Char.toNat_inj, Char.reduceToNat] at h
  omega

theorem isSeparator_of_isBlank {c : Char} (h : isBlank c) : isSeparator c := by
  simp [isSeparator, h]

theorem not_isBlank_of_isSeparator {c : Char} (h : isSeparator c = false) : ¬ isBlank c :=
  fun hb => Bool.false_ne_true (h.symm.trans (isSeparator_of_isBlank hb))

theorem isSeparator_of_isWordChar {c : Char} (h : isWordChar c) : isSeparator c = false := by
  rw [Bool.eq_false_iff]
  intro hs
  have hword := toNat_of_isWordChar h
  have hsep := toNat_of_isSeparator hs
  omega

/-- A row of characters that is a token wherever separators surround it. -/
structure IsToken (s : List Char) : Prop where
  ne_nil : s ≠ []
  plain : ∀ c ∈ s, isSeparator c = false ∧ c ≠ '#'

theorem isToken_of_isWord {s : List Char} (h : isWord s) : IsToken s := by
  obtain ⟨hne, hall⟩ := Bool.and_eq_true_iff.mp h
  refine ⟨by simpa using hne, ?_⟩
  intro c hc
  have hword := List.all_eq_true.mp hall c hc
  refine ⟨isSeparator_of_isWordChar hword, ?_⟩
  rintro rfl
  revert hword
  decide

theorem IsToken.cons {c : Char} {s : List Char} (h : IsToken s) (hc : isSeparator c = false)
    (hne : c ≠ '#') : IsToken (c :: s) :=
  ⟨List.cons_ne_nil _ _, List.forall_mem_cons.mpr ⟨⟨hc, hne⟩, h.plain⟩⟩

theorem isWord_of_isNumeral {s : List Char} (h : isNumeral s) : isWord s := by
  obtain ⟨hne, hall⟩ := Bool.and_eq_true_iff.mp h
  refine Bool.and_eq_true_iff.mpr ⟨hne, List.all_eq_true.mpr ?_⟩
  intro c hc
  simp [isWordChar, Char.isAlphanum, List.all_eq_true.mp hall c hc]

theorem isToken_of_register? {s : List Char} {r : Register} (h : Operand.register? s = some r) :
    IsToken s := by
  unfold Operand.register? at h
  split at h
  next c d =>
    split at h
    next hc =>
      have hd : d = '0' ∨ d = '1' := by
        split at h
        · exact .inl ‹_›
        · split at h
          · exact .inr ‹_›
          · cases h
      have hindex : isSeparator d = false ∧ d ≠ '#' := by
        rcases hd with rfl | rfl <;> decide
      have hletter : isSeparator c = false ∧ c ≠ '#' := by
        have hc : c = 'r' ∨ c = 'R' := by simpa using hc
        rcases hc with rfl | rfl <;> decide
      have hlast : IsToken [d] := ⟨List.cons_ne_nil _ _, List.forall_mem_singleton.mpr hindex⟩
      exact (hlast.cons hletter.1 hletter.2).cons (by decide) (by decide)
    next => cases h
  next => cases h

theorem isToken_of_ofToken? {token : String} {u : Term} (h : Term.ofToken? token = some u) :
    IsToken token.toList := by
  obtain ⟨op, hp, -⟩ := Option.map_eq_some_iff.mp h
  have hdollar : ∀ {s : List Char}, isWord s → IsToken ('$' :: s) := fun hs =>
    (isToken_of_isWord hs).cons (by decide) (by decide)
  unfold Operand.parse at hp
  generalize token.toList = s at hp ⊢
  split at hp
  next r hr => exact isToken_of_register? hr
  next =>
    split at hp
    next digits hd =>
      unfold Operand.numeral? at hd
      split at hd
      · split at hd
        next hn => exact hdollar (isWord_of_isNumeral hn)
        next => cases hd
      · cases hd
    next =>
      split at hp
      next name hn =>
        unfold Operand.name? at hn
        split at hn
        · split at hn
          next hw => exact hdollar hw
          next => cases hn
        · split at hn
          next hw => exact isToken_of_isWord hw
          next => cases hn
      next => cases hp

/-- What stands before and after an operand: there is a mnemonic before it, and only a separator or
a comment can follow. -/
structure Around (before after : List Char) : Prop where
  uncommented : '#' ∉ before
  mnemonic : ∃ c ∈ before, isSeparator c = false
  separated : ∃ c ∈ before.getLast?, isSeparator c
  ended : ∀ c ∈ after.head?, isSeparator c ∨ c = '#'

/-- The statement on a line is an instruction if it is neither a directive nor a label. -/
theorem parse_eq_instruction_iff {raw : List Char} {mnemonic : String} {operands : List String} :
    parse raw = .ok (some (.instruction mnemonic operands)) ↔
      (body raw).head? ≠ some '.' ∧ labelName? (body raw) = none ∧
        ∃ first rest, runs (fun c => !isSeparator c) (body raw) = first :: rest ∧
          mnemonic = String.ofList (lowercase first) ∧ operands = rest.map String.ofList := by
  unfold parse
  split
  next h => simp [h, runs]
  next rest h =>
    simp only [h, List.head?_cons, ne_eq, not_true_eq_false, false_and, iff_false]
    intro hp
    obtain ⟨s, hs, he⟩ := map_eq_ok_iff.mp hp
    cases he
    unfold parseData at hs
    split at hs
    · cases hs
    · split at hs
      · cases hs
      · split at hs <;> cases hs
  next hne hdot =>
    have hhead : (body raw).head? ≠ some '.' := by
      intro h
      obtain ⟨rest, h⟩ := List.head?_eq_some_iff.mp h
      exact hdot rest h
    cases hl : labelName? (body raw) with
    | some name => simp
    | none =>
      simp only [map_eq_ok_iff, parseInstruction]
      cases hr : runs (fun c => !isSeparator c) (body raw) with
      | nil => simp
      | cons first rest => simp [hhead, eq_comm]

variable {before after token token' : List Char}

namespace Around

/-- The separator in front of the operand is still there when the line has been trimmed. -/
theorem exists_separator (h : Around before after) :
    ∃ head sep, before.dropWhile isBlank = head ++ [sep] ∧ isSeparator sep := by
  obtain ⟨sep, hlast, hsep⟩ := h.separated
  obtain ⟨init, rfl⟩ := List.getLast?_eq_some_iff.mp hlast
  obtain ⟨c, hc, hplain⟩ := h.mnemonic
  have hmnemonic : ¬ (init.dropWhile isBlank).isEmpty := by
    rw [List.isEmpty_iff, List.dropWhile_eq_nil_iff]
    intro hall
    rcases List.mem_append.mp hc with hc | hc
    · exact not_isBlank_of_isSeparator hplain (hall c hc)
    · obtain rfl := List.mem_singleton.mp hc
      rw [hsep] at hplain
      cases hplain
  refine ⟨init.dropWhile isBlank, sep, ?_, hsep⟩
  rw [List.dropWhile_append, if_neg hmnemonic]

theorem body_eq (h : Around before after) (ht : IsToken token) :
    body (before ++ token ++ after) =
      before.dropWhile isBlank ++ (token ++ trimEnd isBlank (stripComment after)) := by
  have hstrip : stripComment (before ++ token ++ after) =
      before ++ token ++ stripComment after := by
    apply List.takeWhile_append_of_pos
    intro c hc
    rcases List.mem_append.mp hc with hc | hc
    · simpa using fun he : c = '#' => h.uncommented (he ▸ hc)
    · simpa using (ht.plain c hc).2
  have hmnemonic : ¬ (before.dropWhile isBlank).isEmpty := by
    obtain ⟨head, sep, hdrop, -⟩ := h.exists_separator
    simp [hdrop]
  obtain ⟨init, last, rfl⟩ := (List.eq_nil_or_concat token).resolve_left ht.ne_nil
  have hlast : isBlank last = false :=
    Bool.eq_false_iff.mpr (not_isBlank_of_isSeparator (ht.plain last (by simp)).1)
  rw [body, hstrip, trim, List.append_assoc, List.dropWhile_append, if_neg hmnemonic]
  simp only [List.concat_eq_append, List.append_assoc, List.singleton_append]
  rw [← List.append_assoc, trimEnd_append_cons hlast, List.append_assoc]

theorem head?_body (h : Around before after) (ht : IsToken token) :
    (body (before ++ token ++ after)).head? = (before.dropWhile isBlank).head? := by
  obtain ⟨head, sep, hdrop, -⟩ := h.exists_separator
  rw [h.body_eq ht, hdrop]
  cases head <;> rfl

theorem labelName?_body (h : Around before after) (ht : IsToken token) :
    labelName? (body (before ++ token ++ after)) = none := by
  obtain ⟨head, sep, hdrop, hsep⟩ := h.exists_separator
  have hne : token ++ trimEnd isBlank (stripComment after) ≠ [] := by simp [ht.ne_nil]
  have hword : isWord (body (before ++ token ++ after)).dropLast = false := by
    rw [Bool.eq_false_iff, h.body_eq ht, hdrop, List.dropLast_append_of_ne_nil hne]
    intro hword
    have hall := List.all_eq_true.mp (Bool.and_eq_true_iff.mp hword).2
    have hplain := isSeparator_of_isWordChar (hall sep (by simp))
    rw [hsep] at hplain
    cases hplain
  rw [labelName?, hword, Bool.and_false]
  rfl

theorem runs_body (h : Around before after) (ht : IsToken token) :
    runs (fun c => !isSeparator c) (body (before ++ token ++ after)) =
      runs (fun c => !isSeparator c) before ++
        token :: runs (fun c => !isSeparator c) (trimEnd isBlank (stripComment after)) := by
  obtain ⟨sep, hlast, hsep⟩ := h.separated
  obtain ⟨init, rfl⟩ := List.getLast?_eq_some_iff.mp hlast
  have hsep : (!isSeparator sep) = false := by rw [hsep]; rfl
  have hended : ∀ c ∈ (trimEnd isBlank (stripComment after)).head?, (!isSeparator c) = false := by
    intro c hc
    have hstrip : c ∈ stripComment after :=
      (trimEnd_isPrefix _ _).subset (List.mem_of_mem_head? hc)
    have hne : c ≠ '#' := by simpa using List.mem_takeWhile_imp hstrip
    obtain ⟨rest, hrest⟩ :=
      (trimEnd_isPrefix isBlank (stripComment after)).trans (List.takeWhile_prefix _)
    have hhead : c ∈ after.head? := by
      rw [← hrest, List.head?_append, hc]
      rfl
    rw [(h.ended c hhead).resolve_right hne]
    rfl
  rw [h.body_eq ht, runs_dropWhile (fun c hc => by rw [isSeparator_of_isBlank hc]; rfl),
    List.append_assoc, List.singleton_append, runs_append_cons hsep, runs_append_cons hsep,
    runs_append_of_forall ht.ne_nil (fun c hc => by rw [(ht.plain c hc).1]; rfl) hended]
  simp [runs]

/-- Another operand in its place changes nothing else in the instruction. -/
theorem parse_replace (h : Around before after) (ht : IsToken token) (ht' : IsToken token')
    {mnemonic : String} {operands : List String}
    (hp : parse (before ++ token ++ after) = .ok (some (.instruction mnemonic operands))) :
    ∃ pre post, operands = pre ++ String.ofList token :: post ∧
      parse (before ++ token' ++ after) =
        .ok (some (.instruction mnemonic (pre ++ String.ofList token' :: post))) := by
  obtain ⟨hdot, -, first, rest, hruns, rfl, rfl⟩ := parse_eq_instruction_iff.mp hp
  rw [h.runs_body ht] at hruns
  obtain ⟨first', pre, hpre⟩ : ∃ first' pre, runs (fun c => !isSeparator c) before =
      first' :: pre := by
    apply List.exists_cons_of_ne_nil
    intro hnil
    obtain ⟨c, hc, hsep⟩ := h.mnemonic
    have hsep' := runs_eq_nil_iff.mp hnil c hc
    rw [hsep] at hsep'
    cases hsep'
  rw [hpre, List.cons_append] at hruns
  obtain ⟨rfl, rfl⟩ := List.cons.inj hruns
  have hruns' := h.runs_body ht'
  rw [hpre, List.cons_append] at hruns'
  have hdot' : (body (before ++ token' ++ after)).head? ≠ some '.' := by
    rwa [h.head?_body ht', ← h.head?_body ht]
  refine ⟨pre.map String.ofList, _, by rw [List.map_append, List.map_cons], ?_⟩
  apply parse_eq_instruction_iff.mpr
  exact ⟨hdot', h.labelName?_body ht', first', _, hruns', rfl,
    by rw [List.map_append, List.map_cons]⟩

end Around

end Statement

end Nibble
