import Nibble.Proofs.Scan

/-! # Bindings

What was bound in any number of calls, failed ones included, decides the symbols and the warnings: a
name has the address of its last binding, and every binding of a name that was bound before is
warned of, with the address that the name had until then.
-/

namespace Nibble

structure Binding where
  name : String
  address : Int
  line : Option Int
  deriving DecidableEq, Repr

namespace Binding

def last? (bindings : List Binding) (name : String) : Option Binding :=
  bindings.reverse.find? fun b => b.name = name

/-- The warning of the binding at a position, if its name was bound before. -/
def warning? (file : Option String) (bindings : List Binding) (i : Nat) : Option Warning :=
  (bindings[i]?).bind fun b => (last? (bindings.take i) b.name).map fun previous =>
    ⟨b.name, previous.address, ⟨file, b.line⟩⟩

def warnings (file : Option String) (bindings : List Binding) : List Warning :=
  (List.range bindings.length).filterMap (warning? file bindings)

theorem last?_append_singleton (bindings : List Binding) (b : Binding) (name : String) :
    last? (bindings ++ [b]) name = if b.name = name then some b else last? bindings name := by
  rw [last?, List.reverse_append, List.reverse_singleton, List.singleton_append, List.find?_cons]
  split <;> simp_all [last?]

theorem warnings_append_singleton (file : Option String) (bindings : List Binding) (b : Binding) :
    warnings file (bindings ++ [b]) = warnings file bindings ++
      ((last? bindings b.name).map fun previous =>
        (⟨b.name, previous.address, ⟨file, b.line⟩⟩ : Warning)).toList := by
  have hearlier : ∀ i ∈ List.range bindings.length,
      warning? file (bindings ++ [b]) i = warning? file bindings i := by
    intro i hi
    have hi : i < bindings.length := List.mem_range.mp hi
    rw [warning?, List.getElem?_append_left hi, List.take_append_of_le_length (Nat.le_of_lt hi)]
    rfl
  have hlast : warning? file (bindings ++ [b]) bindings.length =
      (last? bindings b.name).map fun previous => ⟨b.name, previous.address, ⟨file, b.line⟩⟩ := by
    rw [warning?, List.getElem?_append_right (Nat.le_refl _), Nat.sub_self, List.take_left]
    rfl
  rw [warnings, List.length_append, List.length_singleton, List.range_succ, List.filterMap_append,
    List.filterMap_congr hearlier, List.filterMap_cons, hlast]
  cases last? bindings b.name <;> rfl

end Binding

/-- A line that is assembled, or a binding that is made directly. -/
inductive Call
  | line (raw : List Char) (number : Option Int)
  | bind (name : String) (address : Int) (number : Option Int)
  deriving DecidableEq, Repr

namespace Assembler

open Source

def call (a : Assembler) : Call → Assembler
  | .line raw number => (a.addLine raw number).1
  | .bind name address number => a.bind name address number

def callAll (a : Assembler) (calls : List Call) : Assembler :=
  calls.foldl call a

/-- The binding that a statement makes. Data is bound only after it was put into the image. -/
def bindingOf? (a : Assembler) (number : Option Int) : Statement → Option Binding
  | .data name value =>
    (a.image.insertData (.value value)).toOption.map fun _ => ⟨name, a.image.dataCursor, number⟩
  | .label name => some ⟨name, a.image.codeCursor, number⟩
  | .instruction _ _ => none

def binding? (a : Assembler) : Call → Option Binding
  | .line raw number => (statement? raw).bind (a.bindingOf? number)
  | .bind name address number => some ⟨name, address, number⟩

def bindingsOf (a : Assembler) : List Call → List Binding
  | [] => []
  | c :: calls => (a.binding? c).toList ++ (a.call c).bindingsOf calls

def afterBinding (a : Assembler) : Option Binding → Assembler
  | some b => a.bind b.name b.address b.line
  | none => a

/-- Whether two assemblers have the same symbols and warnings. -/
structure SameNames (a b : Assembler) : Prop where
  file : a.file = b.file
  symbols : a.image.symbols = b.image.symbols
  warnings : a.warnings = b.warnings

/-- The lines that bind nothing. -/
inductive Quiet (a : Assembler) (raw : List Char) : Prop
  | blank (h : Statement.parse raw = .ok none)
  | unreadable {fault : Fault} (h : Statement.parse raw = .error fault)
  /-- Encoded or not. -/
  | instruction {mnemonic : String} {tokens : List String}
    (h : Statement.parse raw = .ok (some (.instruction mnemonic tokens)))
  | full {name : String} {value : Nat} {fault : Fault}
    (h : Statement.parse raw = .ok (some (.data name value)))
    (hfull : a.image.insertData (.value value) = .error fault)

variable {a b : Assembler} {file : Option String} {bs : List Binding}

theorem sameNames_record (a : Assembler) (row : Row) : (a.record row).1.SameNames a := by
  unfold record
  split <;> exact ⟨rfl, rfl, rfl⟩

theorem SameNames.trans {c : Assembler} (h : a.SameNames b) (h' : b.SameNames c) :
    a.SameNames c :=
  ⟨h.file.trans h'.file, h.symbols.trans h'.symbols, h.warnings.trans h'.warnings⟩

theorem SameNames.bind (h : a.SameNames b) (name : String) (address : Int) (number : Option Int) :
    (a.bind name address number).SameNames (b.bind name address number) := by
  refine ⟨h.file, ?_, ?_⟩
  · simp only [image_bind, Image.addSymbol, h.symbols]
  · simp only [Assembler.bind, h.symbols, h.warnings, h.file]

theorem sameNames_withImage (a : Assembler) {image : Image} (h : image.symbols = a.image.symbols) :
    SameNames { a with image } a :=
  ⟨rfl, h, rfl⟩

theorem sameNames_enter (a : Assembler) (source : String) (number : Option Int) (s : Statement) :
    (a.enter source number s).1.SameNames (a.afterBinding (a.bindingOf? number s)) := by
  cases s with
  | data name value =>
    simp only [enter, bindingOf?]
    cases hi : a.image.insertData (.value value) with
    | error fault => exact ⟨rfl, rfl, rfl⟩
    | ok image =>
      have himage := (a.sameNames_withImage (Image.symbols_insertData hi)).bind name
        a.image.dataCursor number
      exact (sameNames_record ..).trans himage
  | label name => exact sameNames_record ..
  | instruction mnemonic tokens =>
    simp only [enter]
    split
    next => exact ⟨rfl, rfl, rfl⟩
    next cells _ =>
      have hsymbols := a.image.symbols_insertCells cells
      split
      next image fault hi =>
        rw [hi] at hsymbols
        exact a.sameNames_withImage hsymbols
      next image hi =>
        rw [hi] at hsymbols
        exact (sameNames_record ..).trans (a.sameNames_withImage hsymbols)

theorem sameNames_call (a : Assembler) (c : Call) :
    (a.call c).SameNames (a.afterBinding (a.binding? c)) := by
  cases c with
  | bind name address number => exact ⟨rfl, rfl, rfl⟩
  | line raw number =>
    simp only [call, binding?, addLine, statement?]
    cases Statement.parse raw with
    | error fault => exact ⟨rfl, rfl, rfl⟩
    | ok s? =>
      cases s? with
      | none => exact ⟨rfl, rfl, rfl⟩
      | some s => exact sameNames_enter ..

theorem binding?_eq_none_iff (a : Assembler) (raw : List Char) (number : Option Int) :
    a.binding? (.line raw number) = none ↔ a.Quiet raw := by
  simp only [binding?, statement?]
  constructor
  · intro h
    cases hp : Statement.parse raw with
    | error fault => exact .unreadable hp
    | ok s? =>
      rw [hp] at h
      cases s? with
      | none => exact .blank hp
      | some s =>
        cases s with
        | label name => cases h
        | instruction mnemonic tokens => exact .instruction hp
        | data name value =>
          cases hi : a.image.insertData (.value value) with
          | error fault => exact .full hp hi
          | ok image =>
            simp only [Except.toOption, Option.join_some, Option.bind_some, bindingOf?, hi,
              Option.map_some] at h
            cases h
  · intro h
    cases h with
    | blank h | unreadable h | instruction h =>
      rw [h]
      rfl
    | full h hfull =>
      simp only [h, Except.toOption, Option.join_some, Option.bind_some, bindingOf?, hfull,
        Option.map_none]

/-- The symbols and the warnings are those of some bindings. -/
structure Remembers (a : Assembler) (file : Option String) (bs : List Binding) : Prop where
  sameFile : a.file = file
  find? : ∀ name, a.image.symbols.find? name = (Binding.last? bs name).map Binding.address
  nodup : (a.image.symbols.bindings.map Prod.fst).Nodup
  count : a.warnings.size + a.image.symbols.bindings.length = bs.length
  warnings : a.warnings.toList = Binding.warnings file bs

theorem remembers_new (file : Option String) : (new file).Remembers file [] :=
  ⟨rfl, fun _ => rfl, .nil, rfl, rfl⟩

theorem Remembers.of_sameNames (h : b.Remembers file bs) (hab : a.SameNames b) :
    a.Remembers file bs := by
  obtain ⟨hfile, hsymbols, hwarnings⟩ := hab
  refine ⟨hfile.trans h.sameFile, ?_, ?_, ?_, ?_⟩
  · rw [hsymbols]
    exact h.find?
  · rw [hsymbols]
    exact h.nodup
  · rw [hsymbols, hwarnings]
    exact h.count
  · rw [hwarnings]
    exact h.warnings

/-- A binding adds a warning if the name is there, and the name if it is not. -/
theorem Remembers.bind (h : a.Remembers file bs) (name : String) (address : Int)
    (number : Option Int) :
    (a.bind name address number).Remembers file (bs ++ [⟨name, address, number⟩]) := by
  have hlast := h.find? name
  have hlength : (a.image.symbols.insert name address).bindings.length =
      if (a.image.symbols.find? name).isSome then _ else _ := Keyed.length_insert ..
  refine ⟨h.sameFile, ?_, Keyed.nodup_keys_insert h.nodup name address, ?_, ?_⟩
  · intro other
    rw [image_bind, Image.addSymbol, SymbolTable.find?_insert, Binding.last?_append_singleton,
      h.find? other]
    split <;> rfl
  · rw [List.length_append, List.length_singleton, ← h.count, image_bind, Image.addSymbol,
      hlength, Assembler.bind]
    cases a.image.symbols.find? name with
    | none => rfl
    | some previous => exact (congrArg (· + _) (Array.size_push _)).trans (Nat.add_right_comm ..)
  · rw [Binding.warnings_append_singleton, Assembler.bind, hlast, h.sameFile]
    cases Binding.last? bs name with
    | none => exact h.warnings.trans (List.append_nil _).symm
    | some previous => exact Array.toList_push.trans (congrArg (· ++ _) h.warnings)

theorem Remembers.call (h : a.Remembers file bs) (c : Call) :
    (a.call c).Remembers file (bs ++ (a.binding? c).toList) := by
  refine .of_sameNames ?_ (sameNames_call a c)
  cases a.binding? c with
  | none =>
    rw [Option.toList_none, List.append_nil]
    exact h
  | some b => exact h.bind b.name b.address b.line

theorem Remembers.callAll (h : a.Remembers file bs) (calls : List Call) :
    (a.callAll calls).Remembers file (bs ++ a.bindingsOf calls) := by
  induction calls generalizing a bs with
  | nil =>
    rw [bindingsOf, List.append_nil]
    exact h
  | cons c calls ih =>
    have hrest := ih (h.call c)
    rwa [List.append_assoc] at hrest

/--
After any calls the symbols and the warnings are those of the bindings that were made: a call
changes them as its binding does, and the lines that make none are the quiet ones.
-/
theorem remembers_callAll (file : Option String) (calls : List Call) :
    ((new file).callAll calls).Remembers file ((new file).bindingsOf calls) ∧
    (∀ (a : Assembler) c, (a.call c).SameNames (a.afterBinding (a.binding? c))) ∧
    ∀ (a : Assembler) raw number, a.binding? (.line raw number) = none ↔ a.Quiet raw :=
  ⟨(remembers_new file).callAll calls, sameNames_call, binding?_eq_none_iff⟩

/-- A line that fails makes no binding, and the two that bind a name again are warned of. -/
example :
    let calls := [.line "loop: # start".toList (some 1), .line "halt 1".toList (some 2),
      .bind "loop" 9 none, .line ".data n, 3".toList (some 4), .line "loop:".toList (some 5)]
    (new none).bindingsOf calls =
        [⟨"loop", 0, some 1⟩, ⟨"loop", 9, none⟩, ⟨"n", 15, some 4⟩, ⟨"loop", 0, some 5⟩] ∧
      ((new none).callAll calls).warnings =
        #[⟨"loop", 0, ⟨none, none⟩⟩, ⟨"loop", 9, ⟨none, some 5⟩⟩] := by
  decide +kernel

end Assembler

end Nibble
