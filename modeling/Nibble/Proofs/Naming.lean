import Nibble.Proofs.Packed

/-! # Names

The names that the code of a layout refers to are those in the operands of the commands, and the
names with an address are those of the labels and the data.
-/

namespace Nibble

def Cell.name? : Cell → Option String
  | value _ => none
  | symbol r => some r.name

def Term.name? : Term → Option String
  | .inr (.symbol name) => some name
  | _ => none

namespace Item

def references : Item → List String
  | .command c => c.terms.filterMap Term.name?
  | _ => []

/-- The name that an item binds. -/
def binding? : Item → Option String
  | .data name _ => some name
  | .label name => some name
  | .command _ => none

end Item

theorem Command.names_cells (c : Command Argument) (address : Int) (line : Option Int) :
    (c.cells address line).filterMap Cell.name? = c.terms.filterMap Term.name? := by
  cases c with
  | print x | load x r | store r x | jump condition x => cases x <;> rfl
  | _ => rfl

namespace Layout

def names (l : Layout) : List String :=
  l.code.filterMap Cell.name?

def Binds (l : Layout) (name : String) : Prop :=
  ∃ address, l.symbols.find? name = some address

variable {l : Layout} {name : String}

theorem names_add (line : Option Int) (item : Item) :
    (l.add line item).names = l.names ++ item.references := by
  cases item with
  | command c => rw [add, names, List.filterMap_append, Command.names_cells]; rfl
  | _ => exact (List.append_nil _).symm

theorem binds_add_iff {line : Option Int} {item : Item} :
    (l.add line item).Binds name ↔ l.Binds name ∨ item.binding? = some name := by
  have hinsert : ∀ other address,
      (∃ b, (l.symbols.insert other address).find? name = some b) ↔
        l.Binds name ∨ some other = some name := by
    intro other address
    rw [SymbolTable.find?_insert]
    by_cases h : other = name <;> simp [h, Binds]
  cases item with
  | data other value => exact hinsert other _
  | label other => exact hinsert other _
  | command c => simp [add, Binds, Item.binding?]

theorem names_addAll (items : List (Option Int × Item)) :
    (l.addAll items).names = l.names ++ items.flatMap fun x => x.2.references := by
  induction items generalizing l with
  | nil => exact (List.append_nil _).symm
  | cons x items ih =>
    rw [addAll_cons, ih, names_add, List.append_assoc, List.flatMap_cons]

theorem binds_addAll_iff {items : List (Option Int × Item)} :
    (l.addAll items).Binds name ↔ l.Binds name ∨ ∃ x ∈ items, x.2.binding? = some name := by
  induction items generalizing l with
  | nil => simp [addAll]
  | cons x items ih =>
    rw [addAll_cons, ih, binds_add_iff, List.exists_mem_cons_iff, or_assoc]

theorem symbol_mem_code {r : Reference} (h : .symbol r ∈ l.image.memory) : .symbol r ∈ l.code := by
  rw [image, List.append_assoc] at h
  rcases List.mem_append.mp h with h | h
  · exact h
  · simp at h

theorem name_mem_names {r : Reference} (h : .symbol r ∈ l.image.memory) : r.name ∈ l.names :=
  List.mem_filterMap.mpr ⟨_, symbol_mem_code h, rfl⟩

/-- The image of a layout can be resolved exactly if every name in its code has an address. -/
theorem exists_resolve_iff : (∃ image, l.image.resolve = .ok image) ↔
    ∀ name ∈ l.names, l.Binds name := by
  simp only [Image.resolve_eq_ok_iff, exists_and_left, exists_eq, and_true]
  constructor
  · intro h name hn
    obtain ⟨cell, hc, he⟩ := List.mem_filterMap.mp hn
    have hb : cell.Bound l.symbols := by
      apply h cell
      rw [image, List.append_assoc]
      exact List.mem_append_left _ hc
    cases cell with
    | value n => cases he
    | symbol r =>
      cases he
      exact hb
  · intro h cell hc
    cases cell with
    | value n => trivial
    | symbol r => exact h r.name (name_mem_names hc)

end Layout

end Nibble
