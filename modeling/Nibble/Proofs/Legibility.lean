import Nibble.Assembler
import Nibble.Proofs.Columns
import Nibble.Proofs.FirstFailure
import Nibble.Proofs.Interleaving
import Nibble.Proofs.Rows

/-! # Legibility

The text of a listing can be read back. It shows every name once, in order and with its address, and
then the rows, in columns of fixed places, so that two assembled texts with the same listing have
the same symbols, rows and memory.
-/

namespace Nibble

open List (Forall₂)
open Text

namespace Image

def textUnder (image : Image) (row : Row) : String :=
  String.intercalate " " ((image.under row).map Cell.text)

end Image

/--
Whether a line shows a row: the address at the right of four characters, the cells that the memory
holds at its place in twelve, and the source line behind them, with two spaces before each.
-/
structure Row.ShownBy (row : Row) (image : Image) (line : List Char) : Prop where
  address : (line.drop 2).take 4 = (padLeft 4 (toString row.address)).toList
  cells : (line.drop 8).take 12 = (padRight 12 (image.textUnder row)).toList
  source : line.drop 22 = row.source.toList
  gaps : line.take 2 = [' ', ' '] ∧ (line.drop 6).take 2 = [' ', ' '] ∧
    (line.drop 20).take 2 = [' ', ' ']
  fits : (image.textUnder row).length ≤ 12
  isNibble_address : IsNibble row.address
  /-- The memory holds the cells of the row, with the symbols resolved. -/
  under : image.under row = (row.numbers image.symbols).map Cell.value
  isNibble_numbers : ∀ n ∈ row.numbers image.symbols, IsNibble n

/-- Whether two rows say the same once the symbols are known, on whichever lines. -/
structure Row.Agrees (symbols symbols' : SymbolTable) (row row' : Row) : Prop where
  address : row'.address = row.address
  numbers : row'.numbers symbols' = row.numbers symbols
  source : row'.source = row.source

namespace Listing

def isMarked (line : List Char) : Bool :=
  ['#', ' ', ' ', ' '].isPrefixOf line

/-- Whether a line shows a name and its address, with an equals sign between them. -/
structure Names (binding : String × Int) (line : List Char) : Prop where
  marked : isMarked line
  runs : runs isInk line = [['#'], binding.1.toList, ['='], (toString binding.2).toList]

def ruler : List Char :=
  List.replicate 72 '-'

def heading (symbols : SymbolTable) (source : String) : List String :=
  ["# 4-bit assembler listing", "# Source: " ++ source, ""] ++ symbolLines symbols ++
    [padLeft 6 "Addr" ++ "  " ++ padRight 12 "Cells" ++ "  Source"]

theorem lines_eq (rows : List Row) (symbols : SymbolTable) (source : String) :
    lines rows symbols source =
      heading symbols source ++ String.ofList ruler :: rows.map (rowText symbols) := by
  simp [lines, heading, ruler]

end Listing

/-! ## Rows are read back -/

namespace Row

open Listing

variable {row row' : Row} {image image' : Image} {line : List Char}

theorem columns_rowText (symbols : SymbolTable) (row : Row)
    (haddress : (toString row.address).length ≤ 4)
    (hcells : (cellsText symbols row.cells).length ≤ 12) :
    let line := (rowText symbols row).toList
    (line.drop 2).take 4 = (padLeft 4 (toString row.address)).toList ∧
      (line.drop 8).take 12 = (padRight 12 (cellsText symbols row.cells)).toList ∧
      line.drop 22 = row.source.toList ∧ line.take 2 = [' ', ' '] ∧
      (line.drop 6).take 2 = [' ', ' '] ∧ (line.drop 20).take 2 = [' ', ' '] := by
  have hleft : (padLeft 4 (toString row.address)).toList.length = 4 := by
    rw [String.length_toList, length_padLeft, Nat.max_eq_left haddress]
  have hright : (padRight 12 (cellsText symbols row.cells)).toList.length = 12 := by
    rw [String.length_toList, length_padRight, Nat.max_eq_left hcells]
  have hline : (rowText symbols row).toList =
      [' ', ' '] ++ (padLeft 4 (toString row.address)).toList ++ [' ', ' '] ++
        (padRight 12 (cellsText symbols row.cells)).toList ++ [' ', ' '] ++ row.source.toList := by
    simp [rowText]
  intro line
  generalize (padLeft 4 (toString row.address)).toList = left at *
  generalize (padRight 12 (cellsText symbols row.cells)).toList = right at *
  have hleft' : left.drop 20 = [] := List.drop_eq_nil_of_le (by omega)
  have hright' : right.drop 14 = [] := List.drop_eq_nil_of_le (by omega)
  refine ⟨?_, ?_, ?_, ?_, ?_, ?_⟩ <;>
    simp [line, hline, List.take_append, List.drop_append, hleft, hright, hleft', hright']

theorem textUnder_eq (h : image.under row = (row.numbers image.symbols).map Cell.value) :
    image.textUnder row =
      String.intercalate " " ((row.numbers image.symbols).map toString) := by
  rw [Image.textUnder, h, List.map_map]
  rfl

/-- A line shows one row only, apart from the number of the source line. -/
theorem ShownBy.agrees (h : row.ShownBy image line) (h' : row'.ShownBy image' line) :
    Agrees image.symbols image'.symbols row row' := by
  constructor
  · have hnumbers := congrArg numbersIn (h'.address.symm.trans h.address)
    rw [numbersIn_padLeft h'.isNibble_address, numbersIn_padLeft h.isNibble_address] at hnumbers
    exact List.singleton_inj.mp hnumbers
  · have hnumbers := congrArg numbersIn (h'.cells.symm.trans h.cells)
    rw [textUnder_eq h'.under, textUnder_eq h.under, numbersIn_padRight h'.isNibble_numbers,
      numbersIn_padRight h.isNibble_numbers] at hnumbers
    exact hnumbers
  · exact String.toList_inj.mp (h'.source.symm.trans h.source)

theorem forall₂_agrees {rows rows' : List Row} {ls : List (List Char)}
    (h : Forall₂ (fun row line => row.ShownBy image line) rows ls)
    (h' : Forall₂ (fun row line => row.ShownBy image' line) rows' ls) :
    Forall₂ (Agrees image.symbols image'.symbols) rows rows' := by
  induction h generalizing rows' with
  | nil =>
    cases h'
    exact .nil
  | cons hline _ ih =>
    cases h' with
    | cons hline' hrest' => exact .cons (hline.agrees hline') (ih hrest')

theorem ruler_not_mem_of_shownBy {rows : List Row} {ls : List (List Char)}
    (h : Forall₂ (fun row line => row.ShownBy image line) rows ls) : ruler ∉ ls := by
  induction h with
  | nil => exact List.not_mem_nil
  | cons hline _ ih =>
    refine List.not_mem_cons_of_ne_of_not_mem ?_ ih
    rintro rfl
    exact absurd hline.gaps.1 (by decide)

end Row

/-! ## The lines of a listing -/

theorem Text.lines_text {ls : List String} (hne : ls ≠ []) (h : ∀ line ∈ ls, '\n' ∉ line.toList) :
    lines (String.intercalate "\n" ls ++ "\n").toList = ls.map String.toList ++ [[]] := by
  have hplain : ∀ raw ∈ ls.map String.toList, '\n' ∉ raw := by simpa using h
  have hsplit : lines (String.intercalate "\n" ls).toList = ls.map String.toList := by
    rw [String.toList_intercalate]
    exact List.splitOn_intercalate '\n' hplain (by simpa using hne)
  rw [← hsplit, String.toList_append]
  exact List.splitOnP_append_cons _ [] (beq_self_eq_true '\n')

namespace Listing

variable {symbols : SymbolTable} {source : String} {b : String × Int}

theorem isMarked_symbolText (b : String × Int) : isMarked (symbolText b).toList := by
  simp [isMarked, symbolText]

theorem names_symbolText (hname : isWord b.1.toList) (haddress : IsNibble b.2) :
    Names b (symbolText b).toList := by
  have hline : (symbolText b).toList = ['#'] ++ ' ' :: ([' ', ' '] ++
      ((padRight 24 b.1).toList ++ ' ' :: (['='] ++ ' ' :: (toString b.2).toList))) := by
    simp [symbolText]
  have hspaces : ∀ c ∈ [' ', ' '], isInk c = false := by simp [isInk]
  refine ⟨isMarked_symbolText b, ?_⟩
  rw [hline, runs_append_cons rfl, runs_append_of_forall_not hspaces, runs_append_cons rfl,
    runs_append_cons rfl, runs_padRight, runs_of_isInked (isInked_of_isWord hname),
    runs_of_isInked haddress.isInked_toString]
  rfl

theorem filter_symbolLines (symbols : SymbolTable) :
    (symbolLines symbols).filter (fun line => isMarked line.toList) =
      symbols.sorted.map symbolText := by
  unfold symbolLines
  split
  next hempty => simp [SymbolTable.sorted, List.isEmpty_iff.mp hempty]
  next =>
    have hall : (symbols.sorted.map symbolText).filter (fun line => isMarked line.toList) =
        symbols.sorted.map symbolText := by
      rw [List.filter_eq_self]
      rintro _ hline
      obtain ⟨b, -, rfl⟩ := List.mem_map.mp hline
      exact isMarked_symbolText b
    rw [List.cons_append, List.filter_cons_of_neg (by decide), List.filter_append, hall]
    exact List.append_nil _

theorem filter_heading (symbols : SymbolTable) (source : String) :
    (heading symbols source).filter (fun line => isMarked line.toList) =
      symbols.sorted.map symbolText := by
  have hsource : isMarked ("# Source: " ++ source).toList = false := by
    rw [String.toList_append]
    rfl
  rw [heading, List.filter_append, List.filter_append, filter_symbolLines]
  simp only [List.filter_cons, hsource]
  exact List.append_nil _

theorem forall_mem_heading {P : String → Prop}
    (hfixed : ∀ line ∈ ["# 4-bit assembler listing", "", "# Symbols:",
      padLeft 6 "Addr" ++ "  " ++ padRight 12 "Cells" ++ "  Source"], P line)
    (hsource : P ("# Source: " ++ source)) (hsymbols : ∀ b ∈ symbols.bindings, P (symbolText b)) :
    ∀ line ∈ heading symbols source, P line := by
  simp only [List.forall_mem_cons] at hfixed
  obtain ⟨hfirst, hblank, htitle, hcolumns, -⟩ := hfixed
  have hlines : ∀ line ∈ symbolLines symbols, P line := by
    unfold symbolLines
    split
    next => exact nofun
    next =>
      refine List.forall_mem_append.mpr ⟨List.forall_mem_cons.mpr ⟨htitle, ?_⟩,
        List.forall_mem_singleton.mpr hblank⟩
      rintro _ hline
      obtain ⟨b, hb, rfl⟩ := List.mem_map.mp hline
      exact hsymbols b (List.mem_mergeSort.mp hb)
  refine List.forall_mem_append.mpr ⟨List.forall_mem_append.mpr ⟨?_, hlines⟩,
    List.forall_mem_singleton.mpr hcolumns⟩
  simpa using ⟨hfirst, hsource, hblank⟩

theorem ruler_not_mem_heading (symbols : SymbolTable) (source : String) :
    ruler ∉ (heading symbols source).map String.toList := by
  intro h
  obtain ⟨line, hline, hruler⟩ := List.mem_map.mp h
  have hhead := forall_mem_heading (P := fun line => line.toList.head? ≠ some '-')
    (by decide) (by simp) (by simp [symbolText]) line hline
  rw [hruler] at hhead
  exact hhead rfl

theorem newline_not_mem_symbolText (hname : isWord b.1.toList) (haddress : IsNibble b.2) :
    '\n' ∉ (symbolText b).toList := by
  have hword : '\n' ∉ b.1.toList := by
    intro h
    cases ((Statement.isToken_of_isWord hname).plain _ h).1
  have hcolumn := not_mem_padRight (by decide) hword 24
  simp only [symbolText, String.toList_append, List.mem_append, not_or]
  exact ⟨⟨⟨by decide, hcolumn⟩, by decide⟩, haddress.newline_not_mem_toString⟩

end Listing

/-! ## Listings of assembled texts -/

/-- Whether the lines of a listing tell what was assembled from a text. -/
structure Assembler.Legible (a : Assembler) (text : String) (listing : List (List Char)) :
    Prop where
  /-- The names stand above the ruler, and the rows below it. -/
  parts : ∃ heading rowLines, listing = heading ++ Listing.ruler :: rowLines ++ [[]] ∧
    Listing.ruler ∉ heading ∧
    Forall₂ Listing.Names a.image.symbols.sorted (heading.filter Listing.isMarked) ∧
    Forall₂ (fun row line => row.ShownBy a.image line) a.rows.toList rowLines
  ordered : a.image.symbols.sorted.Pairwise fun b b' => b.1 < b'.1
  complete : ∀ name address, (name, address) ∈ a.image.symbols.sorted ↔
    a.image.symbols.find? name = some address
  /-- A row has its source line without the white space around it. -/
  sources : ∀ row ∈ a.rows.toList, ∃ (i : Nat) (raw : List Char),
    (lines text.toList)[i]? = some raw ∧ row.line = some (i + 1 : Int) ∧
      row.source = String.ofList (trim raw)

namespace SymbolTable

variable {t : SymbolTable}

theorem mem_sorted_iff (h : (t.bindings.map Prod.fst).Nodup) (name : String) (address : Int) :
    (name, address) ∈ t.sorted ↔ t.find? name = some address :=
  List.mem_mergeSort.trans (Keyed.find?_eq_some_iff_mem h).symm

theorem pairwise_sorted (h : (t.bindings.map Prod.fst).Nodup) :
    t.sorted.Pairwise fun b b' => b.1 < b'.1 := by
  have hle : t.sorted.Pairwise fun b b' => decide (b.1 ≤ b'.1) = true := by
    apply List.pairwise_mergeSort
    · intro b c d hbc hcd
      exact decide_eq_true (String.le_trans (of_decide_eq_true hbc) (of_decide_eq_true hcd))
    · intro b c
      simpa using String.le_total b.1 c.1
  have hne : t.sorted.Pairwise fun b b' => b.1 ≠ b'.1 := by
    have hperm := (List.mergeSort_perm t.bindings fun b c => b.1 ≤ c.1).map Prod.fst
    exact List.pairwise_map.mp (hperm.nodup_iff.mpr h)
  refine hle.imp₂ (fun b c hbc hne => ?_) hne
  have hbc := of_decide_eq_true hbc
  exact String.not_le.mp fun hcb => hne (String.le_antisymm hbc hcb)

end SymbolTable

namespace Assembler

variable {a a' : Assembler} {text text' source : String} {l l' : Layout}
  {entries entries' : List Entry} {e : Entry}

namespace Assembled

theorem row_shownBy (h : a.Assembled text l entries) (he : e ∈ entries) :
    e.row.ShownBy a.image (Listing.rowText a.image.symbols e.row).toList := by
  have hnumbers := h.isNibble_of_mem_numbers he
  have htext := h.cellsText_eq he
  have haddress := h.lists.isNibble_address e he
  have hunder := h.under_eq he
  have hcells : (Listing.cellsText a.image.symbols e.row.cells).length ≤ 12 := by
    have hshort : ∀ w ∈ (e.row.numbers a.image.symbols).map toString, w.length ≤ 2 := by
      intro w hw
      obtain ⟨n, hn, rfl⟩ := List.mem_map.mp hw
      exact (hnumbers n hn).length_toString_le
    have hlength := length_intercalate_le hshort
    have hcount := h.lists.length_cells_le e he
    rw [List.length_map, Row.numbers, List.length_map] at hlength
    rw [htext, Row.numbers]
    omega
  obtain ⟨h₁, h₂, h₃, hgaps⟩ := Row.columns_rowText a.image.symbols e.row
    (Nat.le_trans haddress.length_toString_le (by decide)) hcells
  rw [htext, ← Row.textUnder_eq hunder] at h₂ hcells
  exact ⟨h₁, h₂, h₃, hgaps, hcells, haddress, hunder, hnumbers⟩

theorem newline_not_mem_rowText (h : a.Assembled text l entries) (he : e ∈ entries) :
    '\n' ∉ (Listing.rowText a.image.symbols e.row).toList := by
  have hcells : '\n' ∉ (Listing.cellsText a.image.symbols e.row.cells).toList := by
    rw [h.cellsText_eq he]
    apply not_mem_intercalate (by decide)
    intro w hw
    obtain ⟨n, hn, rfl⟩ := List.mem_map.mp hw
    exact (h.isNibble_of_mem_numbers he n hn).newline_not_mem_toString
  have hsource : '\n' ∉ e.row.source.toList := by
    obtain ⟨i, raw, hraw, -, hsource, -⟩ := h.exists_line he
    obtain ⟨lead, trail, htrim, -⟩ := Statement.exists_trim raw
    rw [hsource, String.toList_ofList]
    intro hmem
    apply Source.not_mem_of_mem_lines (List.mem_of_getElem? hraw)
    rw [htrim]
    exact List.mem_append_left _ (List.mem_append_right _ hmem)
  have haddress := not_mem_padLeft (by decide)
    (h.lists.isNibble_address e he).newline_not_mem_toString 4
  have hcolumn := not_mem_padRight (by decide) hcells 12
  simp only [Listing.rowText, String.toList_append, List.mem_append, not_or]
  exact ⟨⟨⟨⟨⟨by decide, haddress⟩, by decide⟩, hcolumn⟩, by decide⟩, hsource⟩

theorem legible (h : a.Assembled text l entries) (hsource : '\n' ∉ source.toList) :
    a.Legible text (lines (a.listing source).toList) := by
  have hlines : lines (a.listing source).toList =
      (Listing.heading a.image.symbols source).map String.toList ++ Listing.ruler ::
        (entries.map fun e => (Listing.rowText a.image.symbols e.row).toList) ++ [[]] := by
    rw [listing, Listing.text, Text.lines_text, Listing.lines_eq, h.rows]
    · simp
    · simp [Listing.lines]
    · rw [Listing.lines_eq, h.rows]
      refine List.forall_mem_append.mpr ⟨?_, List.forall_mem_cons.mpr ⟨by decide, ?_⟩⟩
      · apply Listing.forall_mem_heading (P := fun line => '\n' ∉ line.toList)
        · simp [toList_padLeft, toList_padRight]
        · simpa using hsource
        · exact fun b hb => Listing.newline_not_mem_symbolText (h.isWord_of_mem_symbols hb)
            (h.isNibble_of_mem_symbols hb)
      · simpa using fun e he => h.newline_not_mem_rowText he
  refine ⟨⟨_, _, hlines, Listing.ruler_not_mem_heading _ _, ?_, ?_⟩,
    SymbolTable.pairwise_sorted h.nodup_symbols, SymbolTable.mem_sorted_iff h.nodup_symbols, ?_⟩
  · have hfilter : (Listing.heading a.image.symbols source).filter
        (Listing.isMarked ∘ String.toList) = _ := Listing.filter_heading a.image.symbols source
    rw [List.filter_map, hfilter, List.map_map, List.forall₂_map_right_iff]
    refine List.forall₂_same.mpr fun b hb => ?_
    have hb := List.mem_mergeSort.mp hb
    exact Listing.names_symbolText (h.isWord_of_mem_symbols hb) (h.isNibble_of_mem_symbols hb)
  · rw [h.rows, List.forall₂_map_left_iff, List.forall₂_map_right_iff]
    exact List.forall₂_same.mpr fun e he => h.row_shownBy he
  · intro row hrow
    rw [h.rows] at hrow
    obtain ⟨e, he, rfl⟩ := List.mem_map.mp hrow
    obtain ⟨i, raw, hraw, hline, hsource, -⟩ := h.exists_line he
    exact ⟨i, raw, hraw, hline, hsource⟩

end Assembled

/-- The rows of a listing are read back. -/
theorem Legible.agrees {listing : List (List Char)} (h : a.Legible text listing)
    (h' : a'.Legible text' listing) :
    Forall₂ (Row.Agrees a.image.symbols a'.image.symbols) a.rows.toList a'.rows.toList := by
  obtain ⟨heading, rowLines, hlisting, -, -, hrows⟩ := h.parts
  obtain ⟨heading', rowLines', hlisting', hruler', -, hrows'⟩ := h'.parts
  rw [hlisting] at hlisting'
  obtain ⟨-, -, rfl⟩ := (List.append_cons_inj_of_notMem hruler'
    (Row.ruler_not_mem_of_shownBy hrows')).mp (List.append_cancel_right hlisting'.symm)
  exact Row.forall₂_agrees hrows hrows'

theorem Assembled.map_statement_of_map_source (h : a.Assembled text l entries)
    (h' : a'.Assembled text' l' entries')
    (hsource : entries'.map (fun e => e.row.source) = entries.map fun e => e.row.source) :
    entries'.map Entry.statement = entries.map Entry.statement := by
  have hread : ∀ {b : Assembler} {t m es}, b.Assembled t m es → es.map (some ∘ Entry.statement) =
      (es.map fun e => e.row.source).map fun source => Source.statement? source.toList := by
    intro b t m es hb
    rw [List.map_map]
    refine List.map_congr_left fun e he => ?_
    obtain ⟨-, -, -, -, -, hs⟩ := hb.exists_line he
    exact hs.symm
  apply List.map_injective_iff.mpr fun _ _ => Option.some.inj
  rw [List.map_map, List.map_map, hread h, hread h', hsource]

theorem Assembled.eq_of_agrees (h : a.Assembled text l entries)
    (h' : a'.Assembled text' l' entries')
    (hrows : Forall₂ (Row.Agrees a.image.symbols a'.image.symbols) a.rows.toList a'.rows.toList) :
    a'.image.symbols = a.image.symbols ∧ a'.image.memory = a.image.memory := by
  rw [h.rows, h'.rows, List.forall₂_map_left_iff, List.forall₂_map_right_iff] at hrows
  have hsame : ∀ {α : Type} (f : Entry → α), (∀ e e', Row.Agrees a.image.symbols a'.image.symbols
      e.row e'.row → f e = f e') → entries'.map f = entries.map f := by
    intro α f hf
    have hf := hrows.imp hf
    rw [← List.forall₂_map_right_iff, ← List.forall₂_map_left_iff, List.forall₂_eq_eq_eq] at hf
    exact hf.symm
  have haddress := hsame (fun e => e.row.address) fun _ _ he => he.address.symm
  have hstatement := h.map_statement_of_map_source h'
    (hsame (fun e => e.row.source) fun _ _ he => he.source.symm)
  constructor
  · rw [h.symbols, h'.symbols, h.lists.symbols_eq, h'.lists.symbols_eq]
    have hpairs : ∀ es : List Entry, es.filterMap Entry.binding? =
        ((es.map Entry.statement).zip (es.map fun e => e.row.address)).filterMap fun x =>
          x.1.binding?.map fun name => (name, x.2) := by
      intro es
      rw [List.zip_map', List.filterMap_map]
      rfl
    rw [hpairs, hpairs, hstatement, haddress]
  · have hitems : (Source.items (Source.ofText text')).map Prod.snd =
        (Source.items (Source.ofText text)).map Prod.snd := by
      rw [Source.map_snd_items, Source.map_snd_items, ← h.map_statement, ← h'.map_statement,
        hstatement]
    have halike : l'.Alike l := by
      rw [h.layout, h'.layout]
      exact (Layout.Alike.refl _).addAll hitems
    rw [h.image, h'.image, halike.memory]

/--
The listing of an assembled text is legible, and two texts with the same listing are assembled to
the same rows, symbols and memory.
-/
theorem legible_of_assemble {file : Option String} (h : (new file).assemble text = (a, .ok ()))
    (hsource : '\n' ∉ source.toList) :
    a.Legible text (lines (a.listing source).toList) ∧
      ∀ file' text' a' source', (new file').assemble text' = (a', .ok ()) →
        '\n' ∉ source'.toList → a'.listing source' = a.listing source →
          Forall₂ (Row.Agrees a.image.symbols a'.image.symbols) a.rows.toList a'.rows.toList ∧
          a'.image.symbols = a.image.symbols ∧ a'.image.memory = a.image.memory := by
  obtain ⟨l, entries, hassembled⟩ := exists_assembled h
  have hlegible := hassembled.legible hsource
  refine ⟨hlegible, ?_⟩
  intro file' text' a' source' h' hsource' hlisting
  obtain ⟨l', entries', hassembled'⟩ := exists_assembled h'
  have hlegible' := hassembled'.legible hsource'
  rw [hlisting] at hlegible'
  have hrows := hlegible.agrees hlegible'
  exact ⟨hrows, hassembled.eq_of_agrees hassembled' hrows⟩

/-- A text and one that is laid out in another way and has a comment on a line of its own. -/
theorem legible_of_assemble_spaced :
    let text := "x:\n.data n, 3\njmp x"
    let text' := "# again\n x:\n\n.data n, 3 \r\n\tjmp x"
    ∃ a a', (new none).assemble text = (a, .ok ()) ∧ (new none).assemble text' = (a', .ok ()) ∧
      a'.listing "-" = a.listing "-" ∧ a.Legible text (lines (a.listing "-").toList) ∧
      Forall₂ (Row.Agrees a.image.symbols a'.image.symbols) a.rows.toList a'.rows.toList ∧
      a'.image.symbols = a.image.symbols ∧ a'.image.memory = a.image.memory := by
  intro text text'
  have ha : ((new none).assemble text).2 = .ok () := by decide +kernel
  have ha' : ((new none).assemble text').2 = .ok () := by decide +kernel
  have hsymbols : ((new none).assemble text').1.image.symbols =
      ((new none).assemble text).1.image.symbols := by decide +kernel
  have hrows : let shown := Listing.rowText ((new none).assemble text).1.image.symbols
      ((new none).assemble text').1.rows.toList.map shown =
        ((new none).assemble text).1.rows.toList.map shown := by
    decide +kernel
  have hlisting : ((new none).assemble text').1.listing "-" =
      ((new none).assemble text).1.listing "-" := by
    rw [listing, listing, Listing.text, Listing.text, Listing.lines_eq, Listing.lines_eq, hsymbols,
      hrows]
  have hdash : '\n' ∉ "-".toList := by decide
  obtain ⟨hlegible, hagain⟩ := legible_of_assemble (Prod.ext rfl ha) hdash
  exact ⟨_, _, Prod.ext rfl ha, Prod.ext rfl ha', hlisting, hlegible,
    hagain none text' _ "-" (Prod.ext rfl ha') hdash hlisting⟩

end Assembler

end Nibble
