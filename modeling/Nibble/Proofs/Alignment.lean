import Nibble.Proofs.Listed
import Nibble.Proofs.Running

/-! # Alignment

When the code of an assembled text is read opcode by opcode, as the machine does while no jump is
taken, every instruction is entered at its first cell, and every label stands where an opcode is
read or where the code ends.
-/

namespace Nibble

/--
The addresses at which opcodes are read from some address on, as long as they are below a limit,
and at last the address where that ends.
-/
def walk (memory : List Int) (limit address : Nat) : List Nat :=
  if address < limit then
    address :: walk memory limit (address + Opcode.stride (memory.getD address 0))
  else [address]
termination_by limit - address
decreasing_by
  have := Opcode.stride_pos (memory.getD address 0)
  omega

variable {memory : List Int} {limit address : Nat}

theorem walk_of_lt {n : Int} (h : address < limit) (hn : memory[address]? = some n) :
    walk memory limit address = address :: walk memory limit (address + Opcode.stride n) := by
  rw [walk, if_pos h, List.getD_eq_getElem?_getD, hn, Option.getD_some]

theorem walk_of_le (h : limit ≤ address) : walk memory limit address = [address] := by
  rw [walk, if_neg (Nat.not_lt.mpr h)]

theorem mem_walk_self (memory : List Int) (limit address : Nat) :
    address ∈ walk memory limit address := by
  rw [walk]
  split <;> exact .head _

theorem Command.size_eq_stride {α : Type} (c : Command α) (hr : ∀ r, c ≠ printRegister r) :
    c.size = Opcode.stride c.opcode.code := by
  cases c with
  | printRegister r => exact absurd rfl (hr r)
  | inc r | dec r | load _ r | store r _ => cases r <;> rfl
  | jump condition _ => cases condition <;> rfl
  | _ => rfl

theorem Command.walk_suffix (c : Command Int) (hfit : address + c.size ≤ limit)
    (hcells : c.emit id address <+: memory.drop address) :
    walk memory limit (address + c.size) <:+ walk memory limit address := by
  have hpos := c.size_pos
  have hop : memory[address]? = some (c.opcode.code : Int) :=
    getElem?_of_isPrefix (i := 0) hcells (by cases c <;> rfl)
  rw [walk_of_lt (by omega) hop]
  by_cases hr : ∃ r, c = printRegister r
  · -- a store and a print stand side by side
    obtain ⟨r, rfl⟩ := hr
    have hstore : Opcode.stride (printRegister r : Command Int).opcode.code = 2 := by
      cases r <;> rfl
    have hprint : memory[address + 2]? = some (Opcode.print.code : Int) :=
      getElem?_of_isPrefix hcells rfl
    rw [hstore, walk_of_lt (Nat.lt_of_lt_of_le (by simp [size]) hfit) hprint]
    exact (List.suffix_cons ..).trans (List.suffix_cons ..)
  · rw [c.size_eq_stride fun r hc => hr ⟨r, hc⟩]
    exact List.suffix_cons ..

namespace Layout

/-- The walk through the code of a layout passes the address of every row but those of data. -/
theorem Lists.walk_suffix {l : Layout} {entries : List Entry} (h : l.Lists entries)
    {address : String → Int} (hm : l.code.map (Cell.number address) <+: memory)
    (hlimit : l.code.length ≤ limit) :
    walk memory limit l.code.length <:+ walk memory limit 0 ∧
      ∀ e ∈ entries, e.statement.isData = false → ∃ k : Nat, e.row.address = k ∧
        k ∈ walk memory limit 0 := by
  induction h with
  | nil => exact ⟨List.suffix_rfl, by simp⟩
  | @add l entries s item line source h hi hr ih =>
    have hle : l.code.length ≤ (l.add line item).code.length := length_code_le_add
    have hcode : l.code <+: (l.add line item).code := by
      cases item with
      | command c => exact List.prefix_append ..
      | _ => exact List.prefix_rfl
    obtain ⟨hwalk, hrows⟩ := ih ((hcode.map _).trans hm) (Nat.le_trans hle hlimit)
    constructor
    · cases item with
      | command c =>
        have hcells : (c.map (Argument.value address)).emit id l.code.length <+:
            memory.drop l.code.length := by
          obtain ⟨rest, hrest⟩ := hm
          rw [← hrest, Layout.add, List.map_append, List.append_assoc,
            List.drop_left' (List.length_map _), Command.map_number_cells]
          exact List.prefix_append ..
        have hlen : (l.add line (.command c)).code.length =
            l.code.length + (c.map (Argument.value address)).size := by
          rw [Layout.add, List.length_append, Command.length_cells, Command.size_map]
        rw [hlen] at hlimit ⊢
        exact (Command.walk_suffix _ hlimit hcells).trans hwalk
      | _ => exact hwalk
    · intro e he hdata
      rcases List.mem_append.mp he with he | he
      · exact hrows e he hdata
      · obtain rfl := List.mem_singleton.mp he
        refine ⟨l.code.length, ?_, hwalk.subset (mem_walk_self ..)⟩
        cases Statement.means_of_item? hi with
        | data => cases hdata
        | _ => rfl

end Layout

namespace Assembler

open Source

/--
The walk through the code of an assembled text ends where the code ends, and passes the address of
every instruction and of every label in the listing.
-/
theorem walk_of_assemble {file : Option String} {text : String} {a : Assembler}
    (h : (new file).assemble text = (a, .ok ())) :
    ∃ (words : List Int) (limit : Nat), a.image.memory = words.map Cell.value ∧
      a.image.codeCursor = limit ∧ limit ≤ words.length ∧
      (walk words limit 0).getLast? = some limit ∧
      ∃ entries : List Entry, entries.map Entry.row = a.rows.toList ∧
        entries.map (fun e => (e.row.line, e.row.source, e.statement)) = located (ofText text) ∧
        ∀ e ∈ entries, e.statement.isData = false → ∃ k : Nat, e.row.address = k ∧
          k ∈ walk words limit 0 := by
  obtain ⟨b, image, -, hb, hab⟩ := assemble_eq_ok_iff.mp h
  obtain ⟨entries, hlists, hrows, hlocated⟩ := (holds_new file).lists_of_feed .nil hb
  generalize hl : Layout.addAll .empty (items (ofText text)) = l at hlists
  obtain ⟨hfits, -, himage⟩ := image_of_assemble hl.symm h
  have hcode : l.code.map (Cell.number l.symbols.address) <+:
      l.image.memory.map (Cell.number l.symbols.address) := by
    rw [Layout.image, List.append_assoc]
    exact (List.prefix_append ..).map _
  obtain ⟨⟨before, hwalk⟩, hpassed⟩ := hlists.walk_suffix hcode (Nat.le_refl _)
  refine ⟨l.image.memory.map (Cell.number l.symbols.address), l.code.length, ?_, ?_, ?_, ?_,
    entries, ?_, hlocated, hpassed⟩
  · rw [himage]
  · rw [himage]
    rfl
  · rw [← List.length_map (Cell.number l.symbols.address)]
    exact hcode.length_le
  · rw [← hwalk, walk_of_le (Nat.le_refl _), List.getLast?_concat]
  · rw [hab, hrows]
    rfl

/-- A label in front of a command that takes two opcodes, and one behind all commands. -/
theorem walk_of_assemble_print :
    let text := "jz end\n.data n, 8\nagain: \nprnt %r1\njmp again\nend:"
    ∃ a, (new none).assemble text = (a, .ok ()) ∧
      ∃ (words : List Int) (limit : Nat), a.image.memory = words.map Cell.value ∧
        a.image.codeCursor = limit ∧ limit ≤ words.length ∧
        (walk words limit 0).getLast? = some limit ∧
        ∃ entries : List Entry, entries.map Entry.row = a.rows.toList ∧
          entries.map (fun e => (e.row.line, e.row.source, e.statement)) = located (ofText text) ∧
          ∀ e ∈ entries, e.statement.isData = false → ∃ k : Nat, e.row.address = k ∧
            k ∈ walk words limit 0 := by
  intro text
  have ha : ((new none).assemble text).2 = .ok () := by decide +kernel
  exact ⟨_, Prod.ext rfl ha, walk_of_assemble (Prod.ext rfl ha)⟩

end Assembler

end Nibble
