import Nibble.Proofs.Catalog
import Nibble.Proofs.Numeral
import Nibble.Proofs.Symbols

/-! # Operand tokens

A token spells a register, a number or a symbol, and no two of them. A numeral behind a dollar sign
that is no word is refused as too large, or not diagnosed if it has too many digits; every other
token is invalid. Two operands are the same exactly if their tokens spell the same.
-/

namespace Nibble

open Text

/-- The spellings of a term. -/
inductive Term.Spells : Term → List Char → Prop
  | register (r : Register) {letter : Char} (h : letter = 'r' ∨ letter = 'R') :
    Spells (.inl r) ['%', letter, Nat.digitChar r.index]
  /-- Zeros in front count towards the digits. -/
  | number (zeros n : Nat) (hlen : (numeral zeros n).length ≤ maxDigits) (hn : n ≤ wordLimit) :
    Spells (.inr (.number n)) ('$' :: numeral zeros n)
  /-- The word may be a numeral. -/
  | word {w : List Char} (h : isWord w) : Spells (.inr (.symbol (String.ofList w))) w
  | dollar {w : List Char} (h : isWord w) (hn : isNumeral w = false) :
    Spells (.inr (.symbol (String.ofList w))) ('$' :: w)

namespace Text

theorem isNumeral_numeral (zeros n : Nat) : isNumeral (numeral zeros n) := by
  simp only [isNumeral, Bool.and_eq_true, Bool.not_eq_true', List.isEmpty_eq_false_iff,
    List.all_eq_true]
  exact ⟨numeral_ne_nil zeros n, fun c hc => isDigit_of_mem_numeral hc⟩

theorem exists_numeral_of_isNumeral {s : List Char} (h : isNumeral s) :
    ∃ zeros n, s = numeral zeros n := by
  simp only [isNumeral, Bool.and_eq_true, Bool.not_eq_true', List.isEmpty_eq_false_iff,
    List.all_eq_true] at h
  exact exists_numeral h.1 h.2

end Text

namespace Operand

variable {token : List Char} {r : Register} {line : Option Int}

theorem register?_eq_some_iff : register? token = some r ↔
    ∃ letter, (letter = 'r' ∨ letter = 'R') ∧ token = ['%', letter, Nat.digitChar r.index] := by
  constructor
  · intro h
    unfold register? at h
    split at h
    next letter d =>
      split at h
      next hletter =>
        refine ⟨letter, by simpa using hletter, ?_⟩
        split at h
        next hd =>
          cases h
          rw [hd]
          rfl
        next =>
          split at h
          next hd =>
            cases h
            rw [hd]
            rfl
          next => cases h
      next => cases h
    next => cases h
  · rintro ⟨letter, rfl | rfl, rfl⟩ <;> cases r <;> rfl

theorem tooLarge_iff {token : String} : TooLarge token ↔ ∃ zeros n,
    token.toList = '$' :: numeral zeros n ∧ (numeral zeros n).length ≤ maxDigits ∧
      wordLimit < n := by
  unfold TooLarge
  simp only [numeral?_eq_some_iff]
  constructor
  · rintro ⟨digits, value, ⟨htoken, hnumeral⟩, hvalue, hlarge⟩
    obtain ⟨zeros, n, rfl⟩ := exists_numeral_of_isNumeral hnumeral
    have hlen : (numeral zeros n).length ≤ maxDigits := by
      by_contra hlong
      rw [numeralValue?_eq_none_iff.mpr (Nat.not_le.mp hlong)] at hvalue
      cases hvalue
    rw [numeralValue?_numeral hlen] at hvalue
    cases hvalue
    exact ⟨zeros, _, htoken, hlen, hlarge⟩
  · rintro ⟨zeros, n, htoken, hlen, hlarge⟩
    exact ⟨_, n, ⟨htoken, isNumeral_numeral zeros n⟩, numeralValue?_numeral hlen, hlarge⟩

theorem tooLong_iff {token : String} : TooLong token ↔ ∃ zeros n,
    token.toList = '$' :: numeral zeros n ∧ maxDigits < (numeral zeros n).length := by
  unfold TooLong
  simp only [numeral?_eq_some_iff]
  constructor
  · rintro ⟨digits, ⟨htoken, hnumeral⟩, hlong⟩
    obtain ⟨zeros, n, rfl⟩ := exists_numeral_of_isNumeral hnumeral
    exact ⟨zeros, n, htoken, hlong⟩
  · rintro ⟨zeros, n, htoken, hlong⟩
    exact ⟨_, ⟨htoken, isNumeral_numeral zeros n⟩, hlong⟩

/-- The tokens that are read are the spellings of the terms. -/
theorem parse_eq_ok_iff_spells {token : String} {op : Operand} :
    parse token line = .ok op ↔ ∃ t : Term, t.Spells token.toList ∧ op = t.operand line := by
  constructor
  · intro h
    unfold parse at h
    split at h
    next r hr =>
      cases h
      obtain ⟨letter, hletter, htoken⟩ := register?_eq_some_iff.mp hr
      rw [htoken]
      exact ⟨_, .register r hletter, rfl⟩
    next =>
      split at h
      next digits hd =>
        obtain ⟨htoken, hnumeral⟩ := numeral?_eq_some_iff.mp hd
        obtain ⟨zeros, n, rfl⟩ := exists_numeral_of_isNumeral hnumeral
        rw [htoken]
        rcases Nat.lt_or_ge maxDigits (numeral zeros n).length with hlong | hlen
        · rw [numeralValue?_eq_none_iff.mpr hlong] at h
          cases h
        · simp only [numeralValue?_numeral hlen] at h
          split at h
          next hn =>
            cases h
            exact ⟨_, .number zeros n hlen hn, rfl⟩
          next => cases h
      next hnone =>
        split at h
        next w hw =>
          cases h
          obtain ⟨hword, htoken | htoken⟩ := name?_eq_some_iff.mp hw
          · rw [htoken]
            exact ⟨_, .word hword, rfl⟩
          · have hn : isNumeral w = false := by
              by_contra hnumeral
              rw [htoken, numeral?_eq_some_iff.mpr ⟨rfl, by simpa using hnumeral⟩] at hnone
              cases hnone
            rw [htoken]
            exact ⟨_, .dollar hword hn, rfl⟩
        next => cases h
  · rintro ⟨t, ht, rfl⟩
    obtain ⟨token, rfl⟩ : ∃ s, token = String.ofList s := ⟨token.toList, String.ofList_toList.symm⟩
    rw [String.toList_ofList] at ht
    cases ht with
    | register r hletter =>
      rw [parse, String.toList_ofList, register?_eq_some_iff.mpr ⟨_, hletter, rfl⟩]
      rfl
    | number zeros n hlen hn =>
      have hnumeral : numeral? ('$' :: numeral zeros n) = some (numeral zeros n) :=
        numeral?_eq_some_iff.mpr ⟨rfl, isNumeral_numeral zeros n⟩
      rw [parse, String.toList_ofList, register?_of_numeral? hnumeral, hnumeral]
      simp only [numeralValue?_numeral hlen, if_pos hn]
      rfl
    | word hw => exact parse_of_isWord hw line
    | dollar hw hn => exact parse_of_dollar hw hn line

end Operand

namespace Term

theorem same_operand_iff {t u : Term} {line line' : Option Int} :
    (t.operand line).same (u.operand line') = true ↔ t = u := by
  rcases t with r | n | name <;> rcases u with r' | n' | name' <;> simp [operand, Operand.same]

theorem Spells.unique {t u : Term} {token : List Char} (ht : t.Spells token)
    (hu : u.Spells token) : t = u := by
  have hread : ∀ {v : Term}, v.Spells token →
      Operand.parse (String.ofList token) none = .ok (v.operand none) := fun hv =>
    Operand.parse_eq_ok_iff_spells.mpr ⟨_, by rwa [String.toList_ofList], rfl⟩
  have heq : t.operand none = u.operand none :=
    Except.ok.inj ((hread ht).symm.trans (hread hu))
  have hsame : (t.operand none).same (u.operand none) = true := by
    rw [heq]
    exact same_operand_iff.mpr rfl
  exact same_operand_iff.mp hsame

end Term

namespace Operand

/-- Reads a token at a place, which a diagnostic is given. -/
def parseAt (token : String) (place : Place) : Except Failure Operand :=
  (parse token place.line).mapError (Fault.placed place)

/-- What a token at a place is read as. -/
inductive Reading (place : Place) (token : String) : Except Failure Operand → Prop
  | operand {t : Term} (h : t.Spells token.toList) :
    Reading place token (.ok (t.operand place.line))
  | tooLarge {zeros n : Nat} (h : token.toList = '$' :: numeral zeros n)
    (hlen : (numeral zeros n).length ≤ maxDigits) (hn : wordLimit < n) :
    Reading place token (.error (.diagnostic ⟨.operandTooLarge token, place⟩))
  | tooLong {zeros n : Nat} (h : token.toList = '$' :: numeral zeros n)
    (hlen : maxDigits < (numeral zeros n).length) :
    Reading place token (.error (.defect .numeralTooLong))
  | invalid (h : ∀ t : Term, ¬ t.Spells token.toList)
    (hn : ∀ zeros n, token.toList ≠ '$' :: numeral zeros n) :
    Reading place token (.error (.diagnostic ⟨.invalidOperand token, place⟩))

variable {place : Place} {token : String} {result : Except Failure Operand}

theorem reading_parseAt (place : Place) (token : String) :
    Reading place token (parseAt token place) := by
  unfold parseAt
  cases hp : parse token place.line with
  | ok op =>
    obtain ⟨t, ht, rfl⟩ := parse_eq_ok_iff_spells.mp hp
    exact .operand ht
  | error fault =>
    cases fault with
    | defect d =>
      obtain ⟨rfl, hlong⟩ := parse_eq_defect_iff.mp hp
      obtain ⟨zeros, n, htoken, hlen⟩ := tooLong_iff.mp hlong
      exact .tooLong htoken hlen
    | cause c =>
      rcases parse_eq_cause_iff.mp hp with ⟨rfl, -, hname⟩ | ⟨rfl, hlarge⟩
      · refine .invalid ?_ ?_
        · intro t ht
          have hok : parse token place.line = .ok (t.operand place.line) :=
            parse_eq_ok_iff_spells.mpr ⟨t, ht, rfl⟩
          rw [hp] at hok
          cases hok
        · intro zeros n htoken
          rw [name?_of_numeral? (numeral?_eq_some_iff.mpr ⟨htoken, isNumeral_numeral zeros n⟩)]
            at hname
          cases hname
      · obtain ⟨zeros, n, htoken, hlen, hn⟩ := tooLarge_iff.mp hlarge
        exact .tooLarge htoken hlen hn

theorem Reading.parseAt_eq (h : Reading place token result) : parseAt token place = result := by
  unfold parseAt
  cases h with
  | operand ht => rw [parse_eq_ok_iff_spells.mpr ⟨_, ht, rfl⟩]; rfl
  | tooLarge htoken hlen hn =>
    rw [parse_eq_cause_iff.mpr (.inr ⟨rfl, tooLarge_iff.mpr ⟨_, _, htoken, hlen, hn⟩⟩)]
    rfl
  | tooLong htoken hlen =>
    rw [parse_eq_defect_iff.mpr ⟨rfl, tooLong_iff.mpr ⟨_, _, htoken, hlen⟩⟩]
    rfl
  | invalid hspells hnumeral =>
    -- the token is read as something, and it is nothing else
    have hread := reading_parseAt place token
    unfold parseAt at hread
    generalize (parse token place.line).mapError (Fault.placed place) = result at hread ⊢
    cases hread with
    | operand ht => exact absurd ht (hspells _)
    | tooLarge htoken => exact absurd htoken (hnumeral _ _)
    | tooLong htoken => exact absurd htoken (hnumeral _ _)
    | invalid => rfl

/--
Every token is read as the one thing that it spells, with the line that it stands on, or refused for
the one thing that is wrong with it, at its place. Two operands are the same exactly if their tokens
spell the same, wherever they stand.
-/
theorem parseAt_eq_iff_reading (token : String) (place : Place) :
    (∀ result, parseAt token place = result ↔ Reading place token result) ∧
    (∀ t u : Term, t.Spells token.toList → u.Spells token.toList → t = u) ∧
    ∀ token' place' op op', parseAt token place = .ok op → parseAt token' place' = .ok op' →
      (op.same op' = true ↔ ∃ t : Term, t.Spells token.toList ∧ t.Spells token'.toList) := by
  refine ⟨fun result => ⟨?_, Reading.parseAt_eq⟩, fun t u ht hu => ht.unique hu, ?_⟩
  · rintro rfl
    exact reading_parseAt place token
  · intro token' place' op op' h h'
    have hread := reading_parseAt place token
    have hread' := reading_parseAt place' token'
    rw [h] at hread
    rw [h'] at hread'
    cases hread with | @operand t ht =>
    cases hread' with | @operand u hu =>
    rw [Term.same_operand_iff]
    constructor
    · rintro rfl
      exact ⟨t, ht, hu⟩
    · rintro ⟨v, hv, hv'⟩
      rw [ht.unique hv, hu.unique hv']

/-- A number with zeros in front, spelled in two ways on two lines. -/
theorem parseAt_eq_iff_reading_zeros :
    let place : Place := ⟨some "prog.s", some 3⟩
    let seven : Term := .inr (.number 7)
    parseAt "$007" place = .ok (.number 7) ∧ parseAt "$7" .unknown = .ok (.number 7) ∧
      Reading place "$007" (.ok (.number 7)) ∧ seven.Spells "$007".toList ∧
      (∀ u : Term, u.Spells "$007".toList → seven = u) ∧
      ((Operand.number 7).same (.number 7) = true ↔
        ∃ t : Term, t.Spells "$007".toList ∧ t.Spells "$7".toList) := by
  intro place seven
  have hplace : parseAt "$007" place = .ok (.number 7) := by rfl
  have hunknown : parseAt "$7" .unknown = .ok (.number 7) := by rfl
  have hspells : seven.Spells "$007".toList := .number 2 7 (by decide) (by decide)
  obtain ⟨hiff, hunique, hsame⟩ := parseAt_eq_iff_reading "$007" place
  exact ⟨hplace, hunknown, (hiff _).mp hplace, hspells, fun u hu => hunique _ u hspells hu,
    hsame _ _ _ _ hplace hunknown⟩

end Operand

end Nibble
