import Nibble.Proofs.Naming

/-! # Scripts

A script is a source without lines, cells or addresses: its commands and data in order, and what
every name stands for after the last line. The layout of the source places its commands one after
another, and gives every name the address of what it stands for.
-/

namespace Nibble

/-- The command that follows a label, or a datum, each by the number of those before it. -/
inductive Referent
  | command (k : Nat)
  | datum (j : Nat)
  deriving DecidableEq, Repr

/-- The definitions of names are kept with the latest first. -/
structure Script where
  commands : List (Command Argument)
  data : List Nat
  definitions : List (String × Referent)
  deriving DecidableEq, Repr

namespace Script

def empty : Script := ⟨[], [], []⟩

def add (p : Script) : Item → Script
  | .data name value =>
    { p with
      data := p.data ++ [value], definitions := (name, .datum p.data.length) :: p.definitions }
  | .label name => { p with definitions := (name, .command p.commands.length) :: p.definitions }
  | .command c => { p with commands := p.commands ++ [c] }

def ofItems (items : List (Option Int × Item)) : Script :=
  items.foldl (fun p x => p.add x.2) empty

def ofText (text : String) : Script :=
  ofItems (Source.items (Source.ofText text))

def find? (p : Script) (name : String) : Option Referent :=
  Keyed.find? p.definitions name

/-- The address of a command, or where the code ends if there are no more. -/
def start (p : Script) (k : Nat) : Nat :=
  Command.sizes (p.commands.take k)

def size (p : Script) : Nat :=
  Command.sizes p.commands

/-- The data lie in the last cells, the first datum in the very last. -/
def address (p : Script) : Referent → Int
  | .command k => p.start k
  | .datum j => memorySize - 1 - j

def IsLabel (p : Script) (x : Argument) : Prop :=
  ∃ name k, x = .symbol name ∧ p.find? name = some (.command k)

def IsDatum (p : Script) (x : Argument) : Prop :=
  ∃ name j, x = .symbol name ∧ p.find? name = some (.datum j)

/-- Whether a command jumps to a label only, and moves to or from a datum only. -/
def Links (p : Script) : Command Argument → Prop
  | .jump _ x => p.IsLabel x
  | .load x _ => p.IsDatum x
  | .store _ x => p.IsDatum x
  | _ => True

def Linked (p : Script) : Prop :=
  ∀ c ∈ p.commands, p.Links c

instance (p : Script) (x : Argument) : Decidable (p.IsLabel x) :=
  match x with
  | .number _ => isFalse nofun
  | .symbol name =>
    match h : p.find? name with
    | some (.command k) => isTrue ⟨name, k, rfl, h⟩
    | some (.datum _) | none => isFalse (by rintro ⟨_, _, ⟨⟩, hk⟩; cases h.symm.trans hk)

instance (p : Script) (x : Argument) : Decidable (p.IsDatum x) :=
  match x with
  | .number _ => isFalse nofun
  | .symbol name =>
    match h : p.find? name with
    | some (.datum j) => isTrue ⟨name, j, rfl, h⟩
    | some (.command _) | none => isFalse (by rintro ⟨_, _, ⟨⟩, hj⟩; cases h.symm.trans hj)

instance (p : Script) : DecidablePred p.Links := by
  intro c
  cases c <;> unfold Links <;> infer_instance

instance (p : Script) : Decidable p.Linked :=
  inferInstanceAs (Decidable (∀ c ∈ p.commands, p.Links c))

variable {p : Script} {k : Nat} {c : Command Argument}

theorem start_succ (h : p.commands[k]? = some c) : p.start (k + 1) = p.start k + c.size := by
  rw [start, List.take_add_one, h, Command.sizes_append]
  rfl

theorem start_eq_size (h : p.commands[k]? = none) : p.start k = p.size := by
  rw [start, List.take_of_length_le (List.getElem?_eq_none_iff.mp h)]
  rfl

theorem start_length (p : Script) : p.start p.commands.length = p.size :=
  start_eq_size (List.getElem?_eq_none (Nat.le_refl _))

theorem start_mono {k' : Nat} (h : k ≤ k') : p.start k ≤ p.start k' := by
  obtain ⟨d, rfl⟩ := Nat.exists_eq_add_of_le h
  rw [start, start, List.take_add, Command.sizes_append]
  exact Nat.le_add_right _ _

theorem start_add_size_le (h : p.commands[k]? = some c) : p.start k + c.size ≤ p.size := by
  rw [← start_succ h, ← start_length]
  exact start_mono (List.getElem?_eq_some_iff.mp h).1

theorem start_apart {k' : Nat} {c' : Command Argument} (h : p.commands[k]? = some c)
    (h' : p.commands[k']? = some c') (hne : k ≠ k') :
    p.start k + c.size ≤ p.start k' ∨ p.start k' + c'.size ≤ p.start k := by
  rw [← start_succ h, ← start_succ h']
  exact (Nat.lt_or_gt_of_ne hne).imp start_mono start_mono

/-- A layout that places a script. -/
structure Places (p : Script) (l : Layout) : Prop where
  length_code : l.code.length = p.size
  code : ∀ k c, p.commands[k]? = some c →
    ∃ line, c.cells (p.start k) line <+: l.code.drop (p.start k)
  data : l.data = p.data.reverse
  symbols : ∀ name, l.symbols.find? name = (p.find? name).map p.address
  command_le : ∀ name k, p.find? name = some (.command k) → k ≤ p.commands.length
  datum_lt : ∀ name j, p.find? name = some (.datum j) → j < p.data.length

theorem find?_cons (p : Script) (name other : String) (r : Referent) :
    ({ p with definitions := (other, r) :: p.definitions } : Script).find? name =
      if other = name then some r else p.find? name :=
  Keyed.find?_cons ..

theorem places_empty : empty.Places .empty where
  length_code := rfl
  code := nofun
  data := rfl
  symbols _ := rfl
  command_le := nofun
  datum_lt := nofun

theorem start_append (cs : List (Command Argument)) (h : k ≤ p.commands.length) :
    ({ p with commands := p.commands ++ cs } : Script).start k = p.start k := by
  rw [start, List.take_append_of_le_length h]
  rfl

variable {l : Layout} {line : Option Int}

theorem Places.define (h : p.Places l) {name : String} {address : Int} {r : Referent}
    (ha : address = p.address r) (hk : ∀ k, r = .command k → k ≤ p.commands.length)
    (hj : ∀ j, r = .datum j → j < p.data.length) :
    ({ p with definitions := (name, r) :: p.definitions } : Script).Places
      { l with symbols := l.symbols.insert name address } where
  length_code := h.length_code
  code := h.code
  data := h.data
  symbols other := by
    rw [SymbolTable.find?_insert, find?_cons, h.symbols, ha]
    split <;> rfl
  command_le other k hf := by
    rw [find?_cons] at hf
    split at hf
    · exact hk k (Option.some.inj hf)
    · exact h.command_le other k hf
  datum_lt other j hf := by
    rw [find?_cons] at hf
    split at hf
    · exact hj j (Option.some.inj hf)
    · exact h.datum_lt other j hf

theorem Places.push (h : p.Places l) (value : Nat) :
    ({ p with data := p.data ++ [value] } : Script).Places { l with data := value :: l.data } where
  length_code := h.length_code
  code := h.code
  data := by rw [h.data, List.reverse_concat]
  symbols := h.symbols
  command_le := h.command_le
  datum_lt name j hf := by
    rw [List.length_append]
    exact Nat.lt_add_right _ (h.datum_lt name j hf)

theorem Places.append (h : p.Places l) (c : Command Argument) :
    (p.add (.command c)).Places (l.add line (.command c)) where
  length_code := by
    rw [Layout.add, List.length_append, Command.length_cells, h.length_code, size, add, size,
      Command.sizes_append]
    rfl
  code k c' hc := by
    by_cases hk : k < p.commands.length
    · have hc' : p.commands[k]? = some c' := by rwa [add, List.getElem?_append_left hk] at hc
      obtain ⟨line, hcells⟩ := h.code k c' hc'
      have hle : p.start k ≤ l.code.length := by
        rw [h.length_code, ← start_length]
        exact start_mono (Nat.le_of_lt hk)
      refine ⟨line, ?_⟩
      rw [add, start_append [c] (Nat.le_of_lt hk), Layout.add, List.drop_append_of_le_length hle]
      exact hcells.trans (List.prefix_append ..)
    · obtain rfl : k = p.commands.length := by
        have := (List.getElem?_eq_some_iff.mp hc).1
        rw [add, List.length_append, List.length_singleton] at this
        omega
      obtain rfl : c = c' := by simpa [add] using hc
      refine ⟨line, ?_⟩
      have hdrop : (l.code ++ c.cells l.code.length line).drop p.size =
          c.cells p.size line := by rw [← h.length_code, List.drop_left]
      rw [add, start_append [c] (Nat.le_refl _), start_length, Layout.add]
      exact ⟨[], (List.append_nil _).trans hdrop.symm⟩
  data := h.data
  symbols name := by
    rw [Layout.add, h.symbols name]
    change _ = (p.find? name).map _
    cases hf : p.find? name with
    | none => rfl
    | some r =>
      cases r with
      | command k =>
        exact congrArg (some ∘ Int.ofNat) (start_append [c] (h.command_le name k hf)).symm
      | datum j => rfl
  command_le name k hf := by
    rw [add, List.length_append]
    exact Nat.le_add_right_of_le (h.command_le name k hf)
  datum_lt := h.datum_lt

theorem Places.add (h : p.Places l) (line : Option Int) (item : Item) :
    (p.add item).Places (l.add line item) := by
  cases item with
  | data name value =>
    apply (h.push value).define
    · rw [Layout.dataCursor, h.data, List.length_reverse]
      rfl
    · intro k hk
      cases hk
    · intro j hj
      cases hj
      simp
  | label name =>
    apply h.define
    · rw [h.length_code, ← start_length]
      rfl
    · intro k hk
      cases hk
      exact Nat.le_refl _
    · intro j hj
      cases hj
  | command c => exact h.append c

theorem Places.mem_names (h : p.Places l) (hc : p.commands[k]? = some c) {name : String}
    (hn : .inr (.symbol name) ∈ c.terms) : name ∈ l.names := by
  obtain ⟨line, hcells⟩ := h.code k c hc
  have hname : name ∈ c.terms.filterMap Term.name? := List.mem_filterMap.mpr ⟨_, hn, rfl⟩
  rw [← c.names_cells (p.start k) line] at hname
  obtain ⟨cell, hcell, he⟩ := List.mem_filterMap.mp hname
  exact List.mem_filterMap.mpr ⟨cell, List.mem_of_mem_drop (hcells.subset hcell), he⟩

theorem Places.addAll (h : p.Places l) (items : List (Option Int × Item)) :
    (items.foldl (fun p x => p.add x.2) p).Places (l.addAll items) := by
  induction items generalizing p l with
  | nil => exact h
  | cons x items ih => exact ih (h.add x.1 x.2)

/-- The layout of some items places their script. -/
theorem places_ofItems (items : List (Option Int × Item)) :
    (ofItems items).Places (.addAll .empty items) :=
  places_empty.addAll items

end Script

end Nibble
