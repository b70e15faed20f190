import Nibble.Proofs.Capacity

/-! # Listed statements

The rows of a listing tell what is in the memory: each covers the cells of its statement, no two
cover the same cell, and a cell that no row covers is zero. A name has the address of the last row
that binds it.
-/

namespace Nibble

open Text

/-- A statement with the row that lists it. -/
structure Entry where
  statement : Statement
  row : Row
  deriving DecidableEq, Repr

def Row.Covers (row : Row) (address : Int) : Prop :=
  row.address ≤ address ∧ address < row.address + row.cells.length

namespace Entry

def code (entries : List Entry) : List Cell :=
  (entries.filter (·.statement.isInstruction)).flatMap fun e => e.row.cells

def dataCount (entries : List Entry) : Nat :=
  (entries.filter (·.statement.isData)).length

def last? (entries : List Entry) (name : String) : Option Entry :=
  entries.reverse.find? fun e => e.statement.binding? = some name

/-- The address of the first instruction in some entries, or where the code ends without one. -/
def nextAddress (entries : List Entry) (codeCursor : Int) : Int :=
  ((entries.find? (·.statement.isInstruction)).map fun e => e.row.address).getD codeCursor

/-- Whether the cells of an entry are those of its statement. -/
def Encodes (e : Entry) : Prop :=
  match e.statement with
  | .data _ value => e.row.cells = [.value value]
  | .label _ => e.row.cells = []
  | .instruction mnemonic tokens =>
    Instruction.encode mnemonic tokens e.row.address e.row.line = .ok e.row.cells

theorem code_append (entries entries' : List Entry) :
    code (entries ++ entries') = code entries ++ code entries' := by
  rw [code, List.filter_append, List.flatMap_append]
  rfl

theorem dataCount_append (entries entries' : List Entry) :
    dataCount (entries ++ entries') = dataCount entries + dataCount entries' := by
  rw [dataCount, List.filter_append, List.length_append]
  rfl

theorem last?_append_singleton (entries : List Entry) (e : Entry) (name : String) :
    last? (entries ++ [e]) name =
      if e.statement.binding? = some name then some e else last? entries name := by
  rw [last?, List.reverse_append, List.reverse_singleton, List.singleton_append, List.find?_cons]
  split <;> simp_all [last?]

end Entry

namespace Layout

def Fills (l : Layout) (address : Int) : Prop :=
  (0 ≤ address ∧ address < l.code.length) ∨ (l.dataCursor < address ∧ address ≤ wordLimit)

def row (l : Layout) (line : Option Int) (source : String) : Item → Row
  | .data _ value => ⟨l.dataCursor, [.value value], line, source⟩
  | .label _ => ⟨l.code.length, [], line, source⟩
  | .command c => ⟨l.code.length, c.cells l.code.length line, line, source⟩

/-- A layout with the entries of the statements that led to it. -/
inductive Lists : Layout → List Entry → Prop
  | nil : Lists .empty []
  | add {l : Layout} {entries : List Entry} {s : Statement} {item : Item} (line : Option Int)
    (source : String) (h : Lists l entries) (hi : s.item? = some item) (hr : l.Room item) :
    Lists (l.add line item) (entries ++ [⟨s, l.row line source item⟩])

variable {l : Layout} {item : Item} {line : Option Int} {source : String} {entries : List Entry}

theorem size_add_le (h : l.size ≤ memorySize) (hr : l.Room item) :
    (l.add line item).size ≤ memorySize := by
  cases item with
  | data name value => exact hr
  | label name => exact h
  | command c =>
    simp only [add, size, Room, List.length_append, Command.length_cells] at *
    omega

theorem fills_add_iff (line : Option Int) (source : String) (item : Item) (i : Int) :
    (l.add line item).Fills i ↔ l.Fills i ∨ (l.row line source item).Covers i := by
  have := l.dataCursor_le
  cases item with
  | data name value =>
    simp only [add, row, Fills, Row.Covers, dataCursor, List.length_cons, List.length_nil] at *
    omega
  | label name =>
    simp only [add, row, Fills, Row.Covers, dataCursor, List.length_nil] at *
    omega
  | command c =>
    simp only [add, row, Fills, Row.Covers, dataCursor, List.length_append] at *
    omega

theorem not_covers_of_fills (hr : l.Room item) {i : Int} (hf : l.Fills i) :
    ¬ (l.row line source item).Covers i := by
  cases item with
  | data name value =>
    simp only [row, Fills, Row.Covers, dataCursor, Room, size, List.length_cons,
      List.length_nil] at *
    omega
  | label name =>
    simp only [row, Row.Covers, List.length_nil]
    omega
  | command c =>
    simp only [row, Fills, Row.Covers, dataCursor, Room, size, Command.length_cells] at *
    omega

theorem getElem?_memory_of_code {n : Nat} (h : n < l.code.length) :
    l.image.memory[n]? = l.code[n]? := by
  rw [image, List.append_assoc, List.getElem?_append_left h]

theorem getElem?_memory_add (hs : l.size ≤ memorySize) (hr : l.Room item) {i : Int}
    (hf : l.Fills i) : (l.add line item).image.memory[i.toNat]? = l.image.memory[i.toNat]? := by
  have hs' : (l.add line item).size ≤ memorySize := size_add_le hs hr
  rcases hf with ⟨h0, hlt⟩ | ⟨hlo, hhi⟩
  · have hn : i.toNat < l.code.length := by omega
    rw [getElem?_memory_of_code hn,
      getElem?_memory_of_code (Nat.lt_of_lt_of_le hn length_code_le_add)]
    cases item with
    | command c => exact List.getElem?_append_left hn
    | _ => rfl
  · -- counted from the first datum, the cell moves up by one when another datum is put below
    obtain ⟨j, hj⟩ : ∃ j, i.toNat = memorySize - l.data.length + j := by
      apply Nat.exists_eq_add_of_le
      unfold dataCursor at hlo
      omega
    rw [hj, getElem?_memory_of_data hs]
    cases item with
    | data name value =>
      have hj' : memorySize - l.data.length + j =
          memorySize - (value :: l.data).length + (j + 1) := by
        simp only [Room, size, List.length_cons] at *
        omega
      rw [hj']
      exact getElem?_memory_of_data hs' (j + 1)
    | label name => exact getElem?_memory_of_data hs' j
    | command c => exact getElem?_memory_of_data hs' j

theorem getElem?_memory_row (hs : l.size ≤ memorySize) (hr : l.Room item) {k : Nat} {cell : Cell}
    (hc : (l.row line source item).cells[k]? = some cell) :
    (l.add line item).image.memory[((l.row line source item).address + k).toNat]? = some cell := by
  have hs' : (l.add line item).size ≤ memorySize := size_add_le hs hr
  cases item with
  | data name value =>
    obtain ⟨rfl, rfl⟩ : k = 0 ∧ cell = .value value := by
      cases k with
      | zero => simpa [row, eq_comm] using hc
      | succ k => simp [row] at hc
    have haddress : (l.dataCursor + (0 : Nat)).toNat =
        memorySize - (value :: l.data).length + 0 := by
      simp only [Room, size, dataCursor, List.length_cons] at *
      omega
    rw [row, haddress]
    exact getElem?_memory_of_data hs' 0
  | label name => simp [row] at hc
  | command c =>
    have hk : k < (c.cells l.code.length line).length := (List.getElem?_eq_some_iff.mp hc).1
    have haddress : ((l.code.length : Int) + k).toNat = l.code.length + k := by omega
    rw [row, haddress, getElem?_memory_of_code, add,
      List.getElem?_append_right (Nat.le_add_right ..), Nat.add_sub_cancel_left]
    · exact hc
    · rw [add, List.length_append]
      omega

namespace Lists

theorem size_le (h : l.Lists entries) : l.size ≤ memorySize := by
  induction h with
  | nil => decide
  | add line source _ _ hr ih => exact size_add_le ih hr

theorem covers_iff (h : l.Lists entries) {i : Int} :
    (∃ e ∈ entries, e.row.Covers i) ↔ l.Fills i := by
  induction h with
  | nil =>
    simp only [List.not_mem_nil, false_and, exists_false, false_iff, Fills, empty, dataCursor,
      memorySize, wordLimit, List.length_nil]
    omega
  | @add l entries s item line source _ _ _ ih =>
    rw [fills_add_iff line source, ← ih]
    simp [or_and_right, exists_or]

theorem apart (h : l.Lists entries) :
    entries.Pairwise fun e f => ∀ i, ¬ (e.row.Covers i ∧ f.row.Covers i) := by
  induction h with
  | nil => exact .nil
  | add line source h _ hr ih =>
    refine List.pairwise_append.mpr ⟨ih, List.pairwise_singleton _ _, ?_⟩
    rintro e he f hf i ⟨hei, hfi⟩
    obtain rfl := List.mem_singleton.mp hf
    exact not_covers_of_fills hr (h.covers_iff.mp ⟨e, he, hei⟩) hfi

theorem getElem?_memory (h : l.Lists entries) :
    ∀ e ∈ entries, ∀ (k : Nat) cell, e.row.cells[k]? = some cell →
      l.image.memory[(e.row.address + k).toNat]? = some cell := by
  induction h with
  | nil => simp
  | add line source h hi hr ih =>
    intro e he k cell hc
    rcases List.mem_append.mp he with he | he
    · have hk := (List.getElem?_eq_some_iff.mp hc).1
      have hcovers : e.row.Covers (e.row.address + k) := by
        unfold Row.Covers
        omega
      rw [getElem?_memory_add h.size_le hr (h.covers_iff.mp ⟨e, he, hcovers⟩)]
      exact ih e he k cell hc
    · obtain rfl := List.mem_singleton.mp he
      exact getElem?_memory_row h.size_le hr hc

theorem getElem?_memory_of_not_covers (h : l.Lists entries) {i : Nat} (hi : i < memorySize)
    (hfree : ∀ e ∈ entries, ¬ e.row.Covers i) : l.image.memory[i]? = some (.value 0) := by
  have hn : ¬ l.Fills i := fun hf => by
    obtain ⟨e, he, hcovers⟩ := h.covers_iff.mpr hf
    exact hfree e he hcovers
  unfold Fills dataCursor wordLimit memorySize at *
  exact getElem?_memory_of_free h.size_le (by omega) (by unfold memorySize; omega)

variable {before after : List Entry} {e : Entry}

theorem code_eq (h : l.Lists entries) : l.code = Entry.code entries := by
  induction h with
  | nil => rfl
  | add line source h hi hr ih =>
    rw [Entry.code_append, ← ih]
    cases Statement.means_of_item? hi with
    | command => simp [Layout.add, Entry.code, Statement.isInstruction, row]
    | _ => simp [Layout.add, Entry.code, Statement.isInstruction]

theorem length_data (h : l.Lists entries) : l.data.length = Entry.dataCount entries := by
  induction h with
  | nil => rfl
  | add line source h hi hr ih =>
    rw [Entry.dataCount_append, ← ih]
    cases Statement.means_of_item? hi <;>
      simp [Layout.add, Entry.dataCount, Statement.isData]

theorem address_eq (h : l.Lists (before ++ e :: after)) :
    e.row.address = if e.statement.isData then (wordLimit : Int) - Entry.dataCount before
      else ((Entry.code before).length : Int) := by
  generalize hes : before ++ e :: after = entries at h
  induction h generalizing after with
  | nil => simp at hes
  | @add l entries s item line source h hi hr ih =>
    -- the entry is the one that was added last, or it was there before
    rcases List.eq_nil_or_concat after with rfl | ⟨rest, f, rfl⟩
    · obtain ⟨rfl, he⟩ := List.append_inj' hes rfl
      obtain rfl := List.singleton_inj.mp he
      rw [← h.code_eq, ← h.length_data]
      cases Statement.means_of_item? hi <;> rfl
    · have hes' : (before ++ e :: rest) ++ [f] = entries ++ [⟨s, l.row line source item⟩] := by
        simpa using hes
      exact ih (List.append_inj' hes' rfl).1

theorem encodes (h : l.Lists entries) : ∀ e ∈ entries, e.Encodes := by
  induction h with
  | nil => simp
  | add line source h hi hr ih =>
    intro e he
    rcases List.mem_append.mp he with he | he
    · exact ih e he
    · obtain rfl := List.mem_singleton.mp he
      cases Statement.means_of_item? hi with
      | command hc => exact Instruction.encode_eq_ok_iff.mpr ⟨_, hc, rfl⟩
      | _ => rfl

theorem address_label (h : l.Lists (before ++ e :: after)) {name : String}
    (he : e.statement = .label name) :
    e.row.address = Entry.nextAddress after l.code.length := by
  have haddress : e.row.address = (Entry.code before).length := by
    rw [h.address_eq, he]
    rfl
  -- up to the next instruction no code is added, so that both have the same code before them
  have hcode : ∀ between, (∀ f ∈ between, ¬ f.statement.isInstruction) →
      Entry.code (before ++ e :: between) = Entry.code before := by
    intro between hb
    have hnone : (e :: between).filter (·.statement.isInstruction) = [] := by
      rw [List.filter_eq_nil_iff]
      exact List.forall_mem_cons.mpr ⟨by simp [he, Statement.isInstruction], hb⟩
    have hnil : Entry.code (e :: between) = [] := by
      rw [Entry.code, hnone, List.flatMap_nil]
    rw [Entry.code_append, hnil, List.append_nil]
  unfold Entry.nextAddress
  cases hf : after.find? (·.statement.isInstruction) with
  | none =>
    rw [h.code_eq, hcode after (List.find?_eq_none.mp hf)]
    exact haddress
  | some f =>
    obtain ⟨hinstruction, between, rest, rfl, hb⟩ := List.find?_eq_some_iff_append.mp hf
    have hb : ∀ f ∈ between, ¬ f.statement.isInstruction := by simpa using hb
    have hdata : f.statement.isData = false := by
      cases hs : f.statement with
      | data =>
        rw [hs] at hinstruction
        cases hinstruction
      | _ => rfl
    rw [← List.cons_append, ← List.append_assoc] at h
    have hnext := h.address_eq
    rw [hdata, hcode between hb] at hnext
    exact haddress.trans hnext.symm

theorem find?_symbols (h : l.Lists entries) (name : String) :
    l.symbols.find? name = (Entry.last? entries name).map fun e => e.row.address := by
  induction h with
  | nil => rfl
  | @add l entries s item line source h hi hr ih =>
    rw [Entry.last?_append_singleton]
    cases Statement.means_of_item? hi with
    | data other value =>
      rw [Layout.add, SymbolTable.find?_insert, ih]
      simp only [Statement.binding?, Option.some.injEq]
      split <;> rfl
    | label other =>
      rw [Layout.add, SymbolTable.find?_insert, ih]
      simp only [Statement.binding?, Option.some.injEq]
      split <;> rfl
    | command => exact ih

end Lists

end Layout

namespace Source

/-- The statements on numbered lines, with the numbers and the texts of the lines. -/
def located (lines : List (Option Int × List Char)) : List (Option Int × String × Statement) :=
  lines.filterMap fun x => (statement? x.2).map fun s => (x.1, String.ofList (trim x.2), s)

variable {raw : List Char} {line : Option Int} {rest : List (Option Int × List Char)}

theorem located_cons_of_none (h : statement? raw = none) :
    located ((line, raw) :: rest) = located rest := by
  rw [located, List.filterMap_cons_none (by rw [h]; rfl)]
  rfl

theorem located_cons_of_some {s : Statement} (h : statement? raw = some s) :
    located ((line, raw) :: rest) = (line, String.ofList (trim raw), s) :: located rest := by
  rw [located, List.filterMap_cons_some (by rw [h]; rfl)]
  rfl

theorem exists_numbers_located (start : Nat) (raws : List (List Char)) :
    ∃ numbers : List Nat, (located (numbered start raws)).map Prod.fst =
        numbers.map (fun n => some (n : Int)) ∧
      (∀ n ∈ numbers, start ≤ n) ∧ numbers.Pairwise (· < ·) := by
  induction raws generalizing start with
  | nil => exact ⟨[], rfl, by simp, .nil⟩
  | cons raw raws ih =>
    obtain ⟨numbers, hmap, hle, hlt⟩ := ih (start + 1)
    rw [numbered]
    cases hs : statement? (trimEnd (· = '\r') raw) with
    | none =>
      rw [located_cons_of_none hs]
      exact ⟨numbers, hmap, fun n hn => Nat.le_of_succ_le (hle n hn), hlt⟩
    | some s =>
      rw [located_cons_of_some hs]
      refine ⟨start :: numbers, congrArg (some (start : Int) :: ·) hmap, ?_,
        List.pairwise_cons.mpr ⟨hle, hlt⟩⟩
      exact List.forall_mem_cons.mpr
        ⟨Nat.le_refl start, fun n hn => Nat.le_of_succ_le (hle n hn)⟩

end Source

namespace Assembler

open Source

variable {a a' : Assembler} {l : Layout} {s : Statement} {item : Item} {source : String}
  {line : Option Int} {lines : List (Option Int × List Char)} {entries : List Entry}

/-- A statement that is entered is listed by the row of its item. -/
theorem Holds.rows_of_enter (h : a.Holds l) (he : a.enter source line s = (a', .ok ()))
    (hi : s.item? = some item) : a'.rows = a.rows.push (l.row line source item) := by
  cases Statement.means_of_item? hi with
  | data name value =>
    obtain ⟨image, -, hr⟩ := enter_data_eq_ok_iff.mp he
    rw [(record_eq_ok_iff.mp hr).2.2, h.image]
    rfl
  | label name =>
    rw [(record_eq_ok_iff.mp he).2.2, h.image]
    rfl
  | command hc =>
    obtain ⟨c, image, hc', -, hr⟩ := enter_instruction_eq_ok_iff.mp he
    obtain rfl := Option.some.inj (hc.symm.trans hc')
    rw [(record_eq_ok_iff.mp hr).2.2, h.image]
    rfl

/-- Lines that pass are listed in order, each by one row. -/
theorem Holds.lists_of_feed (h : a.Holds l) (hl : l.Lists entries)
    (ha : a.feed lines = (a', .ok ())) :
    ∃ more, (l.addAll (items lines)).Lists (entries ++ more) ∧
      a'.rows.toList = a.rows.toList ++ more.map Entry.row ∧
      more.map (fun e => (e.row.line, e.row.source, e.statement)) = located lines := by
  induction lines generalizing a l entries with
  | nil =>
    cases ha
    refine ⟨[], ?_, (List.append_nil _).symm, rfl⟩
    rw [List.append_nil]
    exact hl
  | cons x lines ih =>
    obtain ⟨line, raw⟩ := x
    rw [Assembler.feed] at ha
    split at ha
    next b hb =>
      rcases h.cases_addLine hb with ⟨hp, rfl⟩ | ⟨item, hi, hr, hbl⟩
      · have hs : statement? raw = none := by rw [statement?, hp]; rfl
        rw [items_cons_of_none (item?_of_blank hp), located_cons_of_none hs]
        exact ih h hl ha
      · obtain ⟨s, hs, hsi⟩ := Option.bind_eq_some_iff.mp hi
        rw [addLine_of_statement hs] at hb
        have hrows := h.rows_of_enter hb hsi
        obtain ⟨more, hlists, hmore, hlocated⟩ :=
          ih hbl (hl.add line (String.ofList (trim raw)) hsi hr) ha
        rw [items_cons_of_some hi, located_cons_of_some hs]
        refine ⟨⟨s, l.row line (String.ofList (trim raw)) item⟩ :: more, ?_, ?_, ?_⟩
        · rw [Layout.addAll_cons, List.append_cons]
          exact hlists
        · rw [hmore, hrows]
          simp
        · rw [List.map_cons, hlocated]
          cases item <;> rfl
    next => cases ha

end Assembler

/-- An image tells the same as the entries of its statements. -/
structure Image.ListedBy (image : Image) (entries : List Entry) : Prop where
  length_memory : image.memory.length = memorySize
  /-- A row has the cells of its statement, at the address that the rows before it leave. -/
  encodes : ∀ e ∈ entries, e.Encodes
  address : ∀ before e after, entries = before ++ e :: after →
    e.row.address = if e.statement.isData then (wordLimit : Int) - Entry.dataCount before
      else ((Entry.code before).length : Int)
  /-- The memory has the cells of every row, with the symbols resolved. -/
  cells : ∀ e ∈ entries, ∀ (k : Nat) cell, e.row.cells[k]? = some cell →
    cell.Bound image.symbols ∧ image.memory[(e.row.address + k).toNat]? =
      some (.value (cell.number image.symbols.address))
  apart : entries.Pairwise fun e f => ∀ i, ¬ (e.row.Covers i ∧ f.row.Covers i)
  covers : ∀ i, (∃ e ∈ entries, e.row.Covers i) ↔
    (0 ≤ i ∧ i < image.codeCursor) ∨ (image.dataCursor < i ∧ i ≤ wordLimit)
  free : ∀ i : Nat, i < memorySize → (∀ e ∈ entries, ¬ e.row.Covers i) →
    image.memory[i]? = some (.value 0)
  /-- A name has the address of the last row that binds it, and no other name has one. -/
  symbols : ∀ name, image.symbols.find? name =
    (Entry.last? entries name).map fun e => e.row.address
  /-- The address of data is that of its value. -/
  data : ∀ e ∈ entries, ∀ name value, e.statement = .data name value →
    image.memory[e.row.address.toNat]? = some (.value value)
  /-- The address of a label is that of the next instruction. -/
  label : ∀ before e after name, entries = before ++ e :: after → e.statement = .label name →
    e.row.address = Entry.nextAddress after image.codeCursor

theorem Layout.Lists.listedBy {l : Layout} {entries : List Entry} (h : l.Lists entries)
    (hb : ∀ cell ∈ l.image.memory, cell.Bound l.symbols) :
    Image.ListedBy { l.image with
      memory := (l.image.memory.map (Cell.number l.symbols.address)).map Cell.value } entries := by
  have hresolved : ∀ (i : Nat) cell, l.image.memory[i]? = some cell →
      ((l.image.memory.map (Cell.number l.symbols.address)).map Cell.value)[i]? =
        some (.value (cell.number l.symbols.address)) := by
    intro i cell hi
    rw [List.getElem?_map, List.getElem?_map, hi]
    rfl
  have hcells : ∀ e ∈ entries, ∀ (k : Nat) cell, e.row.cells[k]? = some cell →
      cell.Bound l.symbols ∧
        ((l.image.memory.map (Cell.number l.symbols.address)).map Cell.value)[
          (e.row.address + k).toNat]? = some (.value (cell.number l.symbols.address)) := by
    intro e he k cell hc
    have hm := h.getElem?_memory e he k cell hc
    exact ⟨hb cell (List.mem_of_getElem? hm), hresolved _ _ hm⟩
  refine ⟨?_, h.encodes, ?_, hcells, h.apart, fun _ => h.covers_iff, ?_, h.find?_symbols, ?_,
    ?_⟩
  · rw [List.length_map, List.length_map]
    exact length_memory h.size_le
  · rintro before e after rfl
    exact h.address_eq
  · intro i hi hfree
    exact hresolved _ _ (h.getElem?_memory_of_not_covers hi hfree)
  · intro e he name value hs
    have hcell := h.encodes e he
    rw [Entry.Encodes, hs] at hcell
    have hm := (hcells e he 0 (.value value) (by rw [hcell]; rfl)).2
    rw [Int.natCast_zero, Int.add_zero] at hm
    exact hm
  · rintro before e after name rfl hs
    exact h.address_label hs

namespace Assembler

open Source

/--
The rows of an assembled text are those of its statements, line by line upward, and they tell the
same as the memory and the symbols.
-/
theorem listedBy_of_assemble {file : Option String} {text : String} {a : Assembler}
    (h : (new file).assemble text = (a, .ok ())) :
    ∃ entries : List Entry, entries.map Entry.row = a.rows.toList ∧
      entries.map (fun e => (e.row.line, e.row.source, e.statement)) = located (ofText text) ∧
      (∃ numbers : List Nat, entries.map (fun e => e.row.line) =
        numbers.map (fun n => some (n : Int)) ∧ numbers.Pairwise (· < ·)) ∧
      a.image.ListedBy entries := by
  obtain ⟨b, image, -, hb, hab⟩ := assemble_eq_ok_iff.mp h
  obtain ⟨entries, hlists, hrows, hlocated⟩ := (holds_new file).lists_of_feed .nil hb
  obtain ⟨-, hbound, himage⟩ := image_of_assemble rfl h
  obtain ⟨numbers, hnumbers, -, hlt⟩ := exists_numbers_located 1 (Text.lines text.toList)
  refine ⟨entries, ?_, hlocated, ⟨numbers, ?_, hlt⟩, ?_⟩
  · rw [hab, hrows]
    rfl
  · rw [← hnumbers]
    have hlines := congrArg (List.map Prod.fst) hlocated
    rwa [List.map_map] at hlines
  · rw [himage]
    exact hlists.listedBy hbound

/-- A label that is used before it is bound, and a name that is bound again. -/
theorem listedBy_of_assemble_rebound :
    let text := "jmp end\n.data n, 7\nprnt n\nend:\n\n.data n, 2\nhalt"
    ∃ a, (new none).assemble text = (a, .ok ()) ∧
      ∃ entries : List Entry, entries.map Entry.row = a.rows.toList ∧
        entries.map (fun e => (e.row.line, e.row.source, e.statement)) = located (ofText text) ∧
        (∃ numbers : List Nat, entries.map (fun e => e.row.line) =
          numbers.map (fun n => some (n : Int)) ∧ numbers.Pairwise (· < ·)) ∧
        a.image.ListedBy entries := by
  intro text
  have ha : ((new none).assemble text).2 = .ok () := by decide +kernel
  exact ⟨_, Prod.ext rfl ha, listedBy_of_assemble (Prod.ext rfl ha)⟩

end Assembler

end Nibble
