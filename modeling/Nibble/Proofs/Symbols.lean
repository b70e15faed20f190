import Nibble.Proofs.Capacity
import Nibble.Proofs.Grammar
import Nibble.Proofs.Translation

/-! # Symbols

A symbol in an operand is a word, with or without a dollar sign in front of it. Under another name
it is read as the symbol of that name, even if this looks like a mnemonic, a register or a number;
only behind a dollar sign a numeral would be taken for a number.
-/

namespace Nibble

open Text

theorem Text.isWordChar_of_mem {w : List Char} (hw : isWord w) {c : Char} (hc : c ∈ w) :
    isWordChar c :=
  List.all_eq_true.mp (Bool.and_eq_true_iff.mp hw).2 c hc

/-! ## Names -/

/-- A word, as a name for a symbol. -/
@[ext]
structure Name where
  text : String
  isWord_text : isWord text.toList
  deriving DecidableEq

namespace Name

variable {s : Name → Name} {w : List Char}

/-- The text with another name for the one that it is; what is no name stays. -/
def map (s : Name → Name) (name : String) : String :=
  if h : isWord name.toList then (s ⟨name, h⟩).text else name

theorem map_text (s : Name → Name) (x : Name) : map s x.text = (s x).text :=
  dif_pos x.isWord_text

theorem isWord_map {name : String} (h : isWord name.toList) : isWord (map s name).toList := by
  rw [map, dif_pos h]
  exact (s ⟨name, h⟩).isWord_text

theorem map_injective (hs : Function.Injective s) : Function.Injective (map s) := by
  intro name name' h
  by_cases hname : isWord name.toList <;> by_cases hname' : isWord name'.toList
  · rw [map, dif_pos hname, map, dif_pos hname'] at h
    exact congrArg text (hs (Name.ext h))
  · have hword := isWord_map (s := s) hname
    rw [h, map, dif_neg hname'] at hword
    exact absurd hword hname'
  · have hword := isWord_map (s := s) hname'
    rw [← h, map, dif_neg hname] at hword
    exact absurd hword hname
  · rwa [map, dif_neg hname, map, dif_neg hname'] at h

end Name

def Translation.renaming (s : Name → Name) (hs : Function.Injective s) : Translation :=
  ⟨Name.map s, Name.map_injective hs, id⟩

/-! ## Symbols in operands -/

namespace Operand

variable {w token digits : List Char}

theorem parse_of_isWord (hw : isWord w) (line : Option Int) :
    parse (String.ofList w) line = .ok (.symbol ⟨String.ofList w, line⟩) := by
  have hhead : ∀ c ∈ w.head?, isWordChar c := by
    simpa using Statement.head?_of_isWord hw []
  have hregister : register? w = none := by
    unfold register?
    split
    next => exact absurd (hhead '%' rfl) (by decide)
    next => rfl
  have hnumeral : numeral? w = none := by
    unfold numeral?
    split
    next => exact absurd (hhead '$' rfl) (by decide)
    next => rfl
  have hname : name? w = some w := by
    unfold name?
    split
    next => exact absurd (hhead '$' rfl) (by decide)
    next => exact if_pos hw
  rw [parse, String.toList_ofList, hregister, hnumeral, hname]

theorem parse_of_dollar (hw : isWord w) (hn : isNumeral w = false) (line : Option Int) :
    parse (String.ofList ('$' :: w)) line = .ok (.symbol ⟨String.ofList w, line⟩) := by
  have hregister : register? ('$' :: w) = none := by simp [register?]
  have hnumeral : numeral? ('$' :: w) = none := by simp [numeral?, hn]
  have hname : name? ('$' :: w) = some w := if_pos hw
  rw [parse, String.toList_ofList, hregister, hnumeral, hname]

theorem numeral?_eq_some_iff :
    numeral? token = some digits ↔ token = '$' :: digits ∧ isNumeral digits := by
  constructor
  · intro h
    unfold numeral? at h
    split at h
    next rest =>
      split at h
      next hn =>
        cases h
        exact ⟨rfl, hn⟩
      next => cases h
    next => cases h
  · rintro ⟨rfl, hn⟩
    exact if_pos hn

theorem name?_eq_some_iff :
    name? token = some w ↔ isWord w ∧ (token = w ∨ token = '$' :: w) := by
  constructor
  · intro h
    unfold name? at h
    split at h
    next rest =>
      split at h
      next hword =>
        cases h
        exact ⟨hword, .inr rfl⟩
      next => cases h
    next =>
      split at h
      next hword =>
        cases h
        exact ⟨hword, .inl rfl⟩
      next => cases h
  · rintro ⟨hword, rfl | rfl⟩
    · unfold name?
      split
      next => exact absurd (isWordChar_of_mem hword (.head _)) (by decide)
      next => exact if_pos hword
    · exact if_pos hword

/-- A symbol is a word, or a word that is no numeral behind a dollar sign. -/
theorem isWord_of_parse {r : Reference} (h : parse (String.ofList token) none = .ok (.symbol r)) :
    isWord token ∨ ∃ w, token = '$' :: w ∧ isWord w ∧ isNumeral w = false := by
  unfold parse at h
  rw [String.toList_ofList] at h
  split at h
  next => cases h
  next hregister =>
    split at h
    next =>
      split at h
      next => cases h
      next => split at h <;> cases h
    next hnumeral =>
      split at h
      next name hname =>
        obtain ⟨hw, htoken | htoken⟩ := name?_eq_some_iff.mp hname
        · rw [htoken]
          exact .inl hw
        · right
          refine ⟨name, htoken, hw, ?_⟩
          by_contra hn
          rw [htoken, numeral?_eq_some_iff.mpr ⟨rfl, by simpa using hn⟩] at hnumeral
          cases hnumeral
      next => cases h

end Operand

namespace Statement

def renameWord (s : Name → Name) (w : List Char) : List Char :=
  (Name.map s (String.ofList w)).toList

def renameSymbol (s : Name → Name) : List Char → List Char
  | '$' :: w => '$' :: renameWord s w
  | w => renameWord s w

def renameToken (s : Name → Name) (token : List Char) : List Char :=
  if (symbol? (String.ofList token)).isSome then renameSymbol s token else token

variable {s : Name → Name} {token w : List Char} {c : Char}

theorem isWord_renameWord (hw : isWord w) : isWord (renameWord s w) := by
  apply Name.isWord_map
  rwa [String.toList_ofList]

theorem renameSymbol_of_isWord (hw : isWord w) : renameSymbol s w = renameWord s w := by
  unfold renameSymbol
  split
  next w =>
    have hhead := head?_of_isWord hw []
    exact absurd (hhead '$' rfl) (by decide)
  next => rfl

/-- What a token becomes: another symbol of the same form, or the token itself. -/
inductive Renamed (s : Name → Name) (token : List Char) : List Char → Prop
  | word (hw : isWord token) : Renamed s token (renameWord s token)
  | dollar {w : List Char} (htoken : token = '$' :: w) (hw : isWord w) (hn : isNumeral w = false) :
    Renamed s token ('$' :: renameWord s w)
  | other (h : ∀ r, Operand.parse (String.ofList token) none ≠ .ok (.symbol r)) :
    Renamed s token token

theorem renamed_renameToken (s : Name → Name) (token : List Char) :
    Renamed s token (renameToken s token) := by
  unfold renameToken
  split
  next h =>
    obtain ⟨name, hname⟩ := Option.isSome_iff_exists.mp h
    unfold symbol? at hname
    split at hname
    next r hr =>
      rcases Operand.isWord_of_parse hr with hw | ⟨w, rfl, hw, hn⟩
      · rw [renameSymbol_of_isWord hw]
        exact .word hw
      · exact .dollar rfl hw hn
    next => cases hname
  next h =>
    apply Renamed.other
    intro r hr
    rw [symbol?, hr] at h
    exact h rfl

theorem Renamed.isToken {token' : List Char} (h : Renamed s token token') (ht : IsToken token) :
    IsToken token' := by
  cases h with
  | word hw => exact isToken_of_isWord (isWord_renameWord hw)
  | dollar _ hw => exact (isToken_of_isWord (isWord_renameWord hw)).cons (by decide) (by decide)
  | other => exact ht

theorem mem_renameWord (h : c ∈ renameWord s w) : c ∈ w ∨ isWordChar c := by
  by_cases hw : isWord w
  · exact .inr (isWordChar_of_mem (isWord_renameWord hw) h)
  · left
    rwa [renameWord, Name.map, dif_neg (by rwa [String.toList_ofList]), String.toList_ofList] at h

theorem Renamed.mem {token' : List Char} (h : Renamed s token token') (hc : c ∈ token') :
    c ∈ token ∨ isWordChar c := by
  cases h with
  | word => exact mem_renameWord hc
  | dollar htoken =>
    subst htoken
    rcases List.mem_cons.mp hc with rfl | hc
    · exact .inl (.head _)
    · exact (mem_renameWord hc).imp_left (.tail _)
  | other => exact .inl hc

end Statement

theorem Statement.Renamed.isToken_renaming {s : Name → Name} {token token' : List Char}
    (hs : Function.Injective s) (h : Renamed s token token')
    (hdollar : ∀ w, token = '$' :: w → isWord w → isNumeral w = false →
      isNumeral (renameWord s w) = false) :
    (Translation.renaming s hs).IsToken (String.ofList token) (String.ofList token') := by
  have hname : ∀ w, String.ofList (renameWord s w) = Name.map s (String.ofList w) := fun w =>
    String.ofList_toList
  cases h with
  | word hw =>
    intro line
    rw [Operand.parse_of_isWord hw, Operand.parse_of_isWord (isWord_renameWord hw), hname]
    rfl
  | dollar htoken hw hn =>
    intro line
    rw [htoken, Operand.parse_of_dollar hw hn,
      Operand.parse_of_dollar (isWord_renameWord hw) (hdollar _ htoken hw hn), hname]
    rfl
  | other h =>
    apply Translation.isToken_self
    intro r hr
    exact absurd hr (h r)
end Nibble
