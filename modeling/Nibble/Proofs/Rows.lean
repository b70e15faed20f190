import Nibble.Proofs.Listed
import Nibble.Proofs.Spacing

/-! # Rows

What the rows of an assembled text say: each has the address of its place in the memory, the cells
that stand there once the symbols are known, and its line without the white space around it, from
which its statement can be read again. The symbols are the bindings of the rows.
-/

namespace Nibble

open Text

/-! ## Lines without the white space around them -/

namespace Source

open Statement

theorem trim_trimEnd (raw : List Char) : trim (trimEnd (· = '\r') raw) = trim raw := by
  obtain ⟨gap, hraw, -, hgap⟩ := exists_trimEnd (· = '\r') raw
  obtain ⟨lead, trail, htrim, hlead, hhead, hlast, htrail⟩ := exists_trim (trimEnd (· = '\r') raw)
  have hblank : ∀ c ∈ trail ++ gap, isBlank c := by
    refine List.forall_mem_append.mpr ⟨htrail, fun c hc => ?_⟩
    obtain rfl : c = '\r' := by simpa using hgap c hc
    rfl
  have hsplit : raw = lead ++ trim (trimEnd (· = '\r') raw) ++ (trail ++ gap) := by
    rw [← List.append_assoc, ← htrim]
    exact hraw
  rw [← trim_append hlead hhead hlast hblank, ← hsplit]

theorem statement?_trim (raw : List Char) : statement? (trim raw) = statement? raw := by
  obtain ⟨lead, trail, htrim, hlead, -, -, htrail⟩ := exists_trim raw
  have hbody := ((isBody_body (trim raw)).lead hlead).trail htrail
  rw [← htrim] at hbody
  rw [statement?, statement?, parse_of_body_eq hbody.eq_body]

theorem map_located (lines : List (Option Int × List Char)) :
    (located lines).map (fun x => x.2.2) = statements lines := by
  rw [located, List.map_filterMap, statements]
  congr 1
  funext x
  cases statement? x.2 <;> rfl

theorem exists_of_mem_located {text : String} {x : Option Int × String × Statement}
    (h : x ∈ located (ofText text)) : ∃ (i : Nat) (raw : List Char),
      (lines text.toList)[i]? = some raw ∧ x.1 = some (i + 1 : Int) ∧
        x.2.1 = String.ofList (trim raw) ∧ statement? x.2.1.toList = some x.2.2 := by
  obtain ⟨y, hy, hx⟩ := List.mem_filterMap.mp h
  obtain ⟨i, raw, hi, rfl⟩ := exists_of_mem_numbered hy
  obtain ⟨s, hs, rfl⟩ := Option.map_eq_some_iff.mp hx
  refine ⟨i, raw, hi, ?_, ?_, ?_⟩
  · exact congrArg some (Int.add_comm 1 i)
  · exact congrArg String.ofList (trim_trimEnd raw)
  · rw [String.toList_ofList, statement?_trim, hs]

theorem isWord_of_binding? {raw : List Char} {s : Statement} {name : String}
    (h : statement? raw = some s) (hname : s.binding? = some name) : isWord name.toList := by
  have hreading := reading_iff.mpr (statement?_eq_some_iff.mp h)
  generalize body raw = text at hreading
  cases hreading with
  | @data _ name' _ _ hdirective =>
    cases hname
    cases hdirective with
    | intro _ _ hword => simpa using hword
  | label hword =>
    cases hname
    simpa using hword
  | instruction => cases hname

end Source

/-! ## The rows of an assembled text -/

def Entry.binding? (e : Entry) : Option (String × Int) :=
  e.statement.binding?.map fun name => (name, e.row.address)

theorem SymbolTable.ofList_append_singleton (bindings : List (String × Int)) (b : String × Int) :
    ofList (bindings ++ [b]) = (ofList bindings).insert b.1 b.2 := by
  simp [ofList]

theorem SymbolTable.nodup_ofList (bindings : List (String × Int)) :
    ((ofList bindings).bindings.map Prod.fst).Nodup := by
  induction bindings using List.reverseRecOn with
  | nil => exact .nil
  | append_singleton bindings b ih =>
    rw [ofList_append_singleton]
    exact Keyed.nodup_keys_insert ih b.1 b.2

namespace Layout.Lists

variable {l : Layout} {entries : List Entry}

/-- The symbols are the bindings of the rows, made one after another. -/
theorem symbols_eq (h : l.Lists entries) :
    l.symbols = .ofList (entries.filterMap Entry.binding?) := by
  induction h with
  | nil => rfl
  | @add l entries s item line source h hi hr ih =>
    rw [List.filterMap_append]
    cases Statement.means_of_item? hi with
    | data name value =>
      rw [Layout.add, ih]
      exact (SymbolTable.ofList_append_singleton _ (name, l.dataCursor)).symm
    | label name =>
      rw [Layout.add, ih]
      exact (SymbolTable.ofList_append_singleton _ (name, (l.code.length : Int))).symm
    | command => exact ih.trans (congrArg _ (List.append_nil _).symm)

theorem isNibble_address (h : l.Lists entries) : ∀ e ∈ entries, IsNibble e.row.address := by
  induction h with
  | nil => exact nofun
  | @add l entries s item line source h hi hr ih =>
    intro e he
    rcases List.mem_append.mp he with he | he
    · exact ih e he
    · obtain rfl := List.mem_singleton.mp he
      cases item with
      | data name value => exact isNibble_dataCursor hr
      | label name => exact isNibble_natCast_iff.mpr hr
      | command c =>
        have hpos := c.size_pos
        apply isNibble_natCast_iff.mpr
        unfold Room size at hr
        omega

theorem length_cells_le (h : l.Lists entries) : ∀ e ∈ entries, e.row.cells.length ≤ 4 := by
  induction h with
  | nil => exact nofun
  | @add l entries s item line source h hi hr ih =>
    intro e he
    rcases List.mem_append.mp he with he | he
    · exact ih e he
    · obtain rfl := List.mem_singleton.mp he
      cases item with
      | data | label => simp [row]
      | command c =>
        simp only [row, Command.length_cells]
        exact c.size_le_four

end Layout.Lists

/-- The cells of a memory at the place of a row. -/
def Image.under (image : Image) (row : Row) : List Cell :=
  (image.memory.drop row.address.toNat).take row.cells.length

theorem Layout.Lists.under_eq {l : Layout} {entries : List Entry} (h : l.Lists entries) :
    ∀ e ∈ entries, l.image.under e.row = e.row.cells := by
  intro e he
  have hnonneg := (h.isNibble_address e he).1
  apply List.ext_getElem?
  intro k
  rw [Image.under, List.getElem?_take]
  split
  next hk =>
    have hcell := List.getElem?_eq_getElem hk
    have hmemory := h.getElem?_memory e he k _ hcell
    have hindex : (e.row.address + k).toNat = e.row.address.toNat + k := by omega
    rw [List.getElem?_drop, ← hindex, hmemory, hcell]
  next hk => exact (List.getElem?_eq_none (Nat.le_of_not_lt hk)).symm

def Row.numbers (symbols : SymbolTable) (row : Row) : List Int :=
  row.cells.map (Cell.number symbols.address)

namespace Assembler

/-- An assembled text with its layout and the entries of its statements. -/
structure Assembled (a : Assembler) (text : String) (l : Layout) (entries : List Entry) :
    Prop where
  layout : l = .addAll .empty (Source.items (Source.ofText text))
  lists : l.Lists entries
  fits : l.Fits
  bound : ∀ cell ∈ l.image.memory, cell.Bound l.symbols
  image : a.image = { l.image with
    memory := (l.image.memory.map (Cell.number l.symbols.address)).map Cell.value }
  rows : a.rows.toList = entries.map Entry.row
  located : entries.map (fun e => (e.row.line, e.row.source, e.statement)) =
    Source.located (Source.ofText text)

theorem exists_assembled {file : Option String} {text : String} {a : Assembler}
    (h : (new file).assemble text = (a, .ok ())) : ∃ l entries, a.Assembled text l entries := by
  obtain ⟨b, image, -, hb, hab⟩ := assemble_eq_ok_iff.mp h
  obtain ⟨entries, hlists, hrows, hlocated⟩ := (holds_new file).lists_of_feed .nil hb
  obtain ⟨hfits, hbound, himage⟩ := image_of_assemble rfl h
  refine ⟨_, entries, rfl, hlists, hfits, hbound, himage, ?_, hlocated⟩
  rw [hab]
  exact hrows

namespace Assembled

variable {a : Assembler} {text : String} {l : Layout} {entries : List Entry} {e : Entry}
  {cell : Cell}

theorem symbols (h : a.Assembled text l entries) : a.image.symbols = l.symbols := by
  rw [h.image]
  rfl

theorem map_statement (h : a.Assembled text l entries) :
    entries.map Entry.statement = Source.statements (Source.ofText text) := by
  have hlocated := congrArg (List.map fun x => x.2.2) h.located
  rwa [List.map_map, Source.map_located] at hlocated

theorem mem_memory (h : a.Assembled text l entries) (he : e ∈ entries)
    (hc : cell ∈ e.row.cells) : cell ∈ l.image.memory := by
  rw [← h.lists.under_eq e he] at hc
  exact List.mem_of_mem_drop (List.mem_of_mem_take hc)

theorem isNibble_of_mem_numbers (h : a.Assembled text l entries) (he : e ∈ entries) :
    ∀ n ∈ e.row.numbers a.image.symbols, IsNibble n := by
  rw [h.symbols]
  rintro _ hn
  obtain ⟨cell, hc, rfl⟩ := List.mem_map.mp hn
  have hm := h.mem_memory he hc
  exact h.fits.packed.isNibble_number hm (h.bound cell hm)

theorem under_eq (h : a.Assembled text l entries) (he : e ∈ entries) :
    a.image.under e.row = (e.row.numbers a.image.symbols).map Cell.value := by
  have hunder := h.lists.under_eq e he
  rw [h.symbols, Row.numbers]
  conv_rhs => rw [← hunder]
  rw [h.image, Image.under, Image.under, List.map_take, List.map_drop, List.map_take, List.map_drop]

theorem cellsText_eq (h : a.Assembled text l entries) (he : e ∈ entries) :
    Listing.cellsText a.image.symbols e.row.cells =
      String.intercalate " " ((e.row.numbers a.image.symbols).map toString) := by
  rw [Listing.cellsText, Row.numbers, List.map_map]
  congr 1
  apply List.map_congr_left
  intro cell hc
  have hb := h.bound cell (h.mem_memory he hc)
  rw [h.symbols]
  cases cell with
  | value n => rfl
  | symbol r =>
    obtain ⟨address, haddress⟩ := hb
    simp only [Listing.cellText, haddress, Function.comp_apply, Cell.number, SymbolTable.address,
      Option.getD_some]

/-- What a row says of the text. -/
theorem exists_line (h : a.Assembled text l entries) (he : e ∈ entries) :
    ∃ (i : Nat) (raw : List Char), (lines text.toList)[i]? = some raw ∧
      e.row.line = some (i + 1 : Int) ∧ e.row.source = String.ofList (trim raw) ∧
      Source.statement? e.row.source.toList = some e.statement := by
  have hmem : (e.row.line, e.row.source, e.statement) ∈ Source.located (Source.ofText text) := by
    rw [← h.located]
    exact List.mem_map.mpr ⟨e, he, rfl⟩
  exact Source.exists_of_mem_located hmem

theorem nodup_symbols (h : a.Assembled text l entries) :
    (a.image.symbols.bindings.map Prod.fst).Nodup := by
  rw [h.symbols, h.lists.symbols_eq]
  exact SymbolTable.nodup_ofList _

theorem isWord_of_mem_symbols (h : a.Assembled text l entries) {b : String × Int}
    (hb : b ∈ a.image.symbols.bindings) : isWord b.1.toList := by
  have hfind : a.image.symbols.find? b.1 = some b.2 :=
    (Keyed.find?_eq_some_iff_mem h.nodup_symbols).mpr hb
  rw [h.symbols, h.lists.find?_symbols] at hfind
  obtain ⟨e, hlast, -⟩ := Option.map_eq_some_iff.mp hfind
  obtain ⟨-, -, -, -, -, hs⟩ :=
    h.exists_line (List.mem_reverse.mp (List.mem_of_find?_eq_some hlast))
  have hname := List.find?_some hlast
  exact Source.isWord_of_binding? hs (of_decide_eq_true hname)

theorem isNibble_of_mem_symbols (h : a.Assembled text l entries) {b : String × Int}
    (hb : b ∈ a.image.symbols.bindings) : IsNibble b.2 :=
  h.fits.symbols b (h.symbols ▸ hb)

end Assembled

end Assembler

end Nibble
