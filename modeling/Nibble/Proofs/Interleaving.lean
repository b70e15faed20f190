import Nibble.Proofs.Capacity
import Nibble.Proofs.Execution

/-! # Interleaving code and data

Code and data fill the memory from its two ends, and neither depends on how much of the other came
before. Only the order within the code and within the data of a source matters, as long as no name
is defined in both.
-/

namespace Nibble

def Item.isData : Item → Bool
  | data _ _ => true
  | _ => false

def codeSection (ss : List Statement) : List Statement :=
  ss.filter fun s => !s.isData

def dataSection (ss : List Statement) : List Statement :=
  ss.filter Statement.isData

/-! ## What the sections decide -/

variable {ss ss' : List Statement} {s : Statement}

theorem mem_sections_iff : s ∈ ss ↔ s ∈ codeSection ss ∨ s ∈ dataSection ss := by
  simp only [codeSection, dataSection, List.mem_filter, Bool.not_eq_true', ← and_or_left]
  cases s.isData <;> simp

theorem codeSection_cons_of_data (h : s.isData = true) (ss : List Statement) :
    codeSection (s :: ss) = codeSection ss :=
  List.filter_cons_of_neg (by simp [h])

theorem codeSection_cons_of_code (h : s.isData = false) (ss : List Statement) :
    codeSection (s :: ss) = s :: codeSection ss :=
  List.filter_cons_of_pos (by simp [h])

theorem dataSection_cons_of_data (h : s.isData = true) (ss : List Statement) :
    dataSection (s :: ss) = s :: dataSection ss :=
  List.filter_cons_of_pos h

theorem dataSection_cons_of_code (h : s.isData = false) (ss : List Statement) :
    dataSection (s :: ss) = dataSection ss :=
  List.filter_cons_of_neg (by simp [h])

theorem totalSize_eq_sections (ss : List Statement) :
    totalSize ss = totalSize (codeSection ss) + totalSize (dataSection ss) := by
  induction ss with
  | nil => rfl
  | cons s ss ih =>
    cases h : s.isData with
    | true =>
      rw [codeSection_cons_of_data h, dataSection_cons_of_data h, totalSize, totalSize, ih,
        Nat.add_left_comm]
    | false =>
      rw [codeSection_cons_of_code h, dataSection_cons_of_code h, totalSize, totalSize, ih,
        Nat.add_assoc]

theorem labelsFit_codeSection_iff {filled : Nat} :
    LabelsFit filled (codeSection ss) ↔ LabelsFit filled ss := by
  induction ss generalizing filled with
  | nil => exact Iff.rfl
  | cons s ss ih =>
    cases h : s.isData with
    | true =>
      have hlabel : ∀ name, s ≠ .label name := by
        rintro name rfl
        cases h
      have hcells : s.codeCells = 0 := by
        cases s with
        | instruction => cases h
        | _ => rfl
      rw [codeSection_cons_of_data h, ih, labelsFit_cons_iff, hcells]
      simp [hlabel]
    | false => rw [codeSection_cons_of_code h, labelsFit_cons_iff, labelsFit_cons_iff, ih]

/-- Two lists of statements with the same code and the same data. -/
structure SameSections (ss ss' : List Statement) : Prop where
  code : codeSection ss = codeSection ss'
  data : dataSection ss = dataSection ss'

namespace SameSections

theorem symm (h : SameSections ss ss') : SameSections ss' ss :=
  ⟨h.code.symm, h.data.symm⟩

theorem mem_iff (h : SameSections ss ss') : s ∈ ss ↔ s ∈ ss' := by
  rw [mem_sections_iff, h.code, h.data, ← mem_sections_iff]

theorem totalSize_eq (h : SameSections ss ss') : totalSize ss = totalSize ss' := by
  rw [totalSize_eq_sections, h.code, h.data, ← totalSize_eq_sections]

theorem labelsFit_iff (h : SameSections ss ss') {filled : Nat} :
    LabelsFit filled ss ↔ LabelsFit filled ss' := by
  rw [← labelsFit_codeSection_iff, h.code, labelsFit_codeSection_iff]

end SameSections

/-! ## Layouts of the same sections -/

namespace Layout

/-- Layouts that yield the same memory and bind the same names. -/
structure Alike (l m : Layout) : Prop where
  code : ∀ address, l.code.map (Cell.number address) = m.code.map (Cell.number address)
  data : l.data = m.data
  symbols : ∀ name, l.symbols.find? name = m.symbols.find? name

variable {l m k : Layout} {items items' : List (Option Int × Item)}

namespace Alike

theorem refl (l : Layout) : l.Alike l :=
  ⟨fun _ => rfl, rfl, fun _ => rfl⟩

theorem symm (h : l.Alike m) : m.Alike l :=
  ⟨fun address => (h.code address).symm, h.data.symm, fun name => (h.symbols name).symm⟩

theorem trans (h : l.Alike m) (h' : m.Alike k) : l.Alike k :=
  ⟨fun address => (h.code address).trans (h'.code address), h.data.trans h'.data,
    fun name => (h.symbols name).trans (h'.symbols name)⟩

theorem length_code (h : l.Alike m) : l.code.length = m.code.length := by
  simpa using congrArg List.length (h.code fun _ => 0)

theorem dataCursor (h : l.Alike m) : l.dataCursor = m.dataCursor := by
  rw [Layout.dataCursor, h.data]
  rfl

theorem insert (h : l.Alike m) (name : String) (address : Int) (other : String) :
    (l.symbols.insert name address).find? other = (m.symbols.insert name address).find? other := by
  rw [SymbolTable.find?_insert, SymbolTable.find?_insert, h.symbols]

theorem add (h : l.Alike m) (line line' : Option Int) (item : Item) :
    (l.add line item).Alike (m.add line' item) := by
  cases item with
  | data name value =>
    refine ⟨h.code, congrArg (value :: ·) h.data, ?_⟩
    rw [Layout.add, Layout.add, h.dataCursor]
    exact h.insert name m.dataCursor
  | label name =>
    refine ⟨h.code, h.data, ?_⟩
    rw [Layout.add, Layout.add, h.length_code]
    exact h.insert name m.code.length
  | command c =>
    refine ⟨fun address => ?_, h.data, h.symbols⟩
    rw [Layout.add, Layout.add, List.map_append, List.map_append, h.code, h.length_code,
      Command.map_number_cells, Command.map_number_cells]

theorem addAll (h : l.Alike m) (hi : items.map Prod.snd = items'.map Prod.snd) :
    (l.addAll items).Alike (m.addAll items') := by
  induction items generalizing l m items' with
  | nil =>
    obtain rfl : items' = [] := List.map_eq_nil_iff.mp hi.symm
    exact h
  | cons x items ih =>
    obtain ⟨y, items', rfl⟩ : ∃ y ys, items' = y :: ys := by
      cases items' with
      | nil => cases hi
      | cons y ys => exact ⟨y, ys, rfl⟩
    obtain ⟨hx, hi⟩ := List.cons.inj hi
    have hadd : (l.add x.1 x.2).Alike (m.add y.1 y.2) := by
      rw [← hx]
      exact h.add x.1 y.1 x.2
    have hrest := ih hadd hi
    exact hrest

end Alike

/-- A datum may be moved over an item of the code that does not bind the same name. -/
theorem alike_add_data_add (l : Layout) (line line' : Option Int) {name : String} (value : Nat)
    {item : Item} (hcode : item.isData = false) (hname : item.binding? ≠ some name) :
    ((l.add line (.data name value)).add line' item).Alike
      ((l.add line' item).add line (.data name value)) := by
  cases item with
  | data => cases hcode
  | label other =>
    refine ⟨fun _ => rfl, rfl, fun x => ?_⟩
    have hne : other ≠ name := fun h => hname (congrArg some h)
    simp only [add, SymbolTable.find?_insert]
    by_cases ho : other = x
    · have hn : name ≠ x := fun h => hne (ho.trans h.symm)
      simp [ho, hn]
    · simp [ho]
      rfl
  | command c => exact .refl _

theorem alike_addAll_add_data (l : Layout) {line : Option Int} {name : String} {value : Nat}
    (h : ∀ x ∈ items, x.2.isData = false ∧ x.2.binding? ≠ some name) :
    ((l.add line (.data name value)).addAll items).Alike
      ((l.addAll items).add line (.data name value)) := by
  induction items generalizing l with
  | nil => exact .refl _
  | cons x items ih =>
    obtain ⟨⟨hcode, hname⟩, h⟩ := List.forall_mem_cons.mp h
    have hswap := l.alike_add_data_add line x.1 value hcode hname
    exact (hswap.addAll rfl).trans (ih (l.add x.1 x.2) h)

theorem alike_addAll_sections (l : Layout) (items : List (Option Int × Item))
    (h : ∀ line name value, (line, .data name value) ∈ items →
      ∀ x ∈ items, x.2.isData = false → x.2.binding? ≠ some name) :
    (l.addAll items).Alike ((l.addAll (items.filter fun x => !x.2.isData)).addAll
      (items.filter fun x => x.2.isData)) := by
  induction items generalizing l with
  | nil => exact .refl _
  | cons x items ih =>
    have hrest := ih (l.add x.1 x.2) fun line name value hm y hy =>
      h line name value (.tail _ hm) y (.tail _ hy)
    obtain ⟨line, item⟩ := x
    cases hd : item.isData with
    | false =>
      rw [List.filter_cons_of_pos (by simp [hd]), List.filter_cons_of_neg (by simp [hd])]
      exact hrest
    | true =>
      rw [List.filter_cons_of_neg (by simp [hd]), List.filter_cons_of_pos (by simp [hd])]
      rw [addAll_cons, addAll_cons]
      refine hrest.trans (Alike.addAll ?_ rfl)
      cases item with
      | data name value =>
        apply alike_addAll_add_data
        intro y hy
        obtain ⟨hmem, hcode⟩ := List.mem_filter.mp hy
        have hcode : y.2.isData = false := by simpa using hcode
        exact ⟨hcode, h line name value (.head _) y (.tail _ hmem) hcode⟩
      | label | command => cases hd

theorem Alike.memory (h : l.Alike m) :
    l.image.memory.map (Cell.number l.symbols.address) =
      m.image.memory.map (Cell.number m.symbols.address) := by
  have haddress : l.symbols.address = m.symbols.address := by
    funext name
    rw [SymbolTable.address, h.symbols]
    rfl
  simp only [image, size, List.map_append, h.code, h.length_code, h.data, haddress]

end Layout

namespace Source

variable {lines lines' : List (Option Int × List Char)}

theorem map_snd_items (lines : List (Option Int × List Char)) :
    (items lines).map Prod.snd = (statements lines).filterMap Statement.item? := by
  induction lines with
  | nil => rfl
  | cons x lines ih =>
    obtain ⟨line, raw⟩ := x
    cases hs : statement? raw with
    | none =>
      have hi : item? raw = none := by rw [item?, hs, Option.bind_none]
      rw [statements_cons_of_none hs, items_cons_of_none hi, ih]
    | some s =>
      cases hsi : s.item? with
      | none =>
        have hi : item? raw = none := by rw [item?, hs, Option.bind_some, hsi]
        rw [statements_cons_of_some hs, items_cons_of_none hi, ih, List.filterMap_cons_none hsi]
      | some item =>
        have hi : item? raw = some item := by rw [item?, hs, Option.bind_some, hsi]
        rw [statements_cons_of_some hs, items_cons_of_some hi, List.map_cons, ih,
          List.filterMap_cons_some hsi]

theorem isData_of_item? {s : Statement} {item : Item} (h : s.item? = some item) :
    item.isData = s.isData := by
  cases Statement.means_of_item? h <;> rfl

theorem map_snd_filter_items (lines : List (Option Int × List Char)) (p : Bool → Bool) :
    ((items lines).filter fun x => p x.2.isData).map Prod.snd =
      ((statements lines).filter fun s => p s.isData).filterMap Statement.item? := by
  have hfilter : ((items lines).filter fun x => p x.2.isData).map Prod.snd =
      ((items lines).map Prod.snd).filter fun item => p item.isData := by
    rw [List.filter_map]
    rfl
  rw [hfilter, map_snd_items, List.filter_filterMap, List.filterMap_filter]
  apply List.filterMap_congr
  intro s _
  cases hi : s.item? with
  | none => simp
  | some item =>
    rw [Option.filter_some, isData_of_item? hi]

theorem readable_of_parse_iff (h : ∀ x ∈ lines, ∃ s?, Statement.parse x.2 = .ok s?) :
    (∀ x ∈ lines, Readable x.2) ↔ ∀ s ∈ statements lines, ∃ item, s.item? = some item := by
  constructor
  · intro hread s hs
    obtain ⟨x, hx, hxs⟩ := List.mem_filterMap.mp hs
    rcases readable_iff.mp (hread x hx) with hp | ⟨s', item, hs', hi⟩
    · rw [statement?_eq_some_iff, hp] at hxs
      cases hxs
    · rw [hs'] at hxs
      cases hxs
      exact ⟨item, hi⟩
  · intro hitems x hx
    obtain ⟨s?, hp⟩ := h x hx
    cases s? with
    | none => exact readable_iff.mpr (.inl hp)
    | some s =>
      have hs := statement?_eq_some_iff.mpr hp
      obtain ⟨item, hi⟩ := hitems s (List.mem_filterMap.mpr ⟨x, hx, hs⟩)
      exact readable_iff.mpr (.inr ⟨s, item, hs, hi⟩)

theorem exists_statement_of_mem_items {x : Option Int × Item} (h : x ∈ items lines) :
    ∃ s ∈ statements lines, s.item? = some x.2 := by
  have hx : x.2 ∈ (items lines).map Prod.snd := List.mem_map_of_mem h
  rw [map_snd_items] at hx
  exact List.mem_filterMap.mp hx

theorem binding?_ne_of_mem_items {line : Option Int} {name : String} {value : Nat}
    (h : ∀ name value, .label name ∈ statements lines → .data name value ∉ statements lines)
    (hd : (line, .data name value) ∈ items lines) :
    ∀ x ∈ items lines, x.2.isData = false → x.2.binding? ≠ some name := by
  rintro ⟨line', item⟩ hx hcode hname
  obtain ⟨s, hs, hi⟩ := exists_statement_of_mem_items hd
  cases Statement.means_of_item? hi
  cases item with
  | data => cases hcode
  | label other =>
    cases hname
    obtain ⟨t, ht, hi⟩ := exists_statement_of_mem_items hx
    cases Statement.means_of_item? hi
    exact h _ _ ht hs
  | command c => cases hname

/-- Sources of the same sections have the same layout, up to lines and the order of symbols. -/
theorem alike_of_sameSections (h : SameSections (statements lines) (statements lines'))
    (hnames : ∀ name value, .label name ∈ statements lines → .data name value ∉ statements lines) :
    (Layout.addAll .empty (items lines)).Alike (Layout.addAll .empty (items lines')) := by
  have hnames' : ∀ name value, .label name ∈ statements lines' →
      .data name value ∉ statements lines' := by
    intro name value hl hd
    exact hnames name value (h.mem_iff.mpr hl) (h.mem_iff.mpr hd)
  have hcode : ((items lines).filter fun x => !x.2.isData).map Prod.snd =
      ((items lines').filter fun x => !x.2.isData).map Prod.snd := by
    have hitems := congrArg (List.filterMap Statement.item?) h.code
    exact (map_snd_filter_items lines not).trans
      (hitems.trans (map_snd_filter_items lines' not).symm)
  have hdata : ((items lines).filter fun x => x.2.isData).map Prod.snd =
      ((items lines').filter fun x => x.2.isData).map Prod.snd := by
    have hitems := congrArg (List.filterMap Statement.item?) h.data
    exact (map_snd_filter_items lines id).trans
      (hitems.trans (map_snd_filter_items lines' id).symm)
  have hsorted := Layout.alike_addAll_sections .empty (items lines)
    fun _ _ _ hd => binding?_ne_of_mem_items hnames hd
  have hsorted' := Layout.alike_addAll_sections .empty (items lines')
    fun _ _ _ hd => binding?_ne_of_mem_items hnames' hd
  exact hsorted.trans ((((Layout.Alike.refl _).addAll hcode).addAll hdata).trans hsorted'.symm)

end Source

namespace Assembler

open Source

variable {file file' : Option String} {text text' : String}

theorem assemble_snd_eq_ok_iff (file : Option String) (text : String) :
    ((new file).assemble text).2 = .ok () ↔
      (∀ x ∈ ofText text, Readable x.2) ∧ totalSize (statements (ofText text)) ≤ memorySize ∧
        LabelsFit 0 (statements (ofText text)) ∧
        ∀ name ∈ (statements (ofText text)).flatMap Statement.references,
          name ∈ (statements (ofText text)).filterMap Statement.binding? := by
  constructor
  · intro hok
    obtain ⟨b, image, hr, hb, -⟩ := assemble_eq_ok_iff.mp (Prod.ext rfl hok)
    have hread := ((holds_new file).room_of_feed hb).1
    obtain ⟨hsize, hlabels⟩ := (feed_eq_ok_iff file hread).mp ⟨b, hb⟩
    refine ⟨hread, hsize, hlabels, (resolve_of_feed hb).1.mp ?_⟩
    rw [resolve, hr]
  · rintro ⟨hread, hsize, hlabels, hbound⟩
    obtain ⟨b, hb⟩ := (feed_eq_ok_iff file hread).mpr ⟨hsize, hlabels⟩
    have hok := (resolve_of_feed hb).1.mpr hbound
    cases hr : b.image.resolve with
    | error r =>
      rw [resolve, hr] at hok
      cases hok
    | ok image => exact congrArg Prod.snd (assemble_eq_ok_iff.mpr ⟨b, image, hr, hb, rfl⟩)

theorem assemble_snd_eq_ok_of_sameSections
    (hread : ∀ x ∈ ofText text, ∃ s?, Statement.parse x.2 = .ok s?)
    (hread' : ∀ x ∈ ofText text', ∃ s?, Statement.parse x.2 = .ok s?)
    (h : SameSections (statements (ofText text)) (statements (ofText text')))
    (hok : ((new file).assemble text).2 = .ok ()) : ((new file').assemble text').2 = .ok () := by
  rw [assemble_snd_eq_ok_iff, readable_of_parse_iff hread] at hok
  obtain ⟨hitems, hsize, hlabels, hbound⟩ := hok
  rw [assemble_snd_eq_ok_iff, readable_of_parse_iff hread', ← h.totalSize_eq, ← h.labelsFit_iff]
  refine ⟨fun s hs => hitems s (h.mem_iff.mpr hs), hsize, hlabels, fun name hname => ?_⟩
  obtain ⟨s, hs, hr⟩ := List.mem_flatMap.mp hname
  have hname' := hbound name (List.mem_flatMap.mpr ⟨s, h.mem_iff.mpr hs, hr⟩)
  obtain ⟨t, ht, hb⟩ := List.mem_filterMap.mp hname'
  exact List.mem_filterMap.mpr ⟨t, h.mem_iff.mp ht, hb⟩

/--
Texts that can be read and have the same code and the same data, however these are interleaved, are
assembled either both or neither, and into the same memory, cursors and symbols. The names of the
labels may not be names of data.
-/
theorem assemble_of_sameSections (file file' : Option String)
    (hread : ∀ x ∈ ofText text, ∃ s?, Statement.parse x.2 = .ok s?)
    (hread' : ∀ x ∈ ofText text', ∃ s?, Statement.parse x.2 = .ok s?)
    (hcode : codeSection (statements (ofText text)) = codeSection (statements (ofText text')))
    (hdata : dataSection (statements (ofText text)) = dataSection (statements (ofText text')))
    (hnames : ∀ name value, .label name ∈ statements (ofText text) →
      .data name value ∉ statements (ofText text)) :
    (((new file).assemble text).2 = .ok () ↔ ((new file').assemble text').2 = .ok ()) ∧
    ∀ a a', (new file).assemble text = (a, .ok ()) → (new file').assemble text' = (a', .ok ()) →
      a.image.memory = a'.image.memory ∧ a.image.codeCursor = a'.image.codeCursor ∧
        a.image.dataCursor = a'.image.dataCursor ∧
        ∀ name, a.image.symbols.find? name = a'.image.symbols.find? name := by
  have h : SameSections (statements (ofText text)) (statements (ofText text')) := ⟨hcode, hdata⟩
  refine ⟨⟨assemble_snd_eq_ok_of_sameSections hread hread' h,
    assemble_snd_eq_ok_of_sameSections hread' hread h.symm⟩, fun a a' ha ha' => ?_⟩
  have halike := alike_of_sameSections h hnames
  rw [(image_of_assemble rfl ha).2.2, (image_of_assemble rfl ha').2.2]
  exact ⟨congrArg (List.map Cell.value) halike.memory, congrArg Nat.cast halike.length_code,
    halike.dataCursor, halike.symbols⟩

/-- The name of the data is bound twice, and the label is used before it is bound. -/
theorem assemble_of_sameSections_rebound :
    let text := "jz l\n.data n, 3\nl:\nmov n, %r0\n.data n, 1"
    let text' := ".data n, 3\n.data n, 1\n# code\njz l\nl:\nmov n, %r0"
    (∀ x ∈ ofText text, Readable x.2) ∧ (∀ x ∈ ofText text', Readable x.2) ∧
    codeSection (statements (ofText text)) = codeSection (statements (ofText text')) ∧
    dataSection (statements (ofText text)) = dataSection (statements (ofText text')) ∧
    ((new none).assemble text).2 = .ok () ∧
    (((new none).assemble text).2 = .ok () ↔ ((new none).assemble text').2 = .ok ()) ∧
    ∀ a a', (new none).assemble text = (a, .ok ()) → (new none).assemble text' = (a', .ok ()) →
      a.image.memory = a'.image.memory ∧ a.image.codeCursor = a'.image.codeCursor ∧
      a.image.dataCursor = a'.image.dataCursor ∧
      ∀ name, a.image.symbols.find? name = a'.image.symbols.find? name := by
  intro text text'
  have hread : ∀ x ∈ ofText text, Readable x.2 := by decide +kernel
  have hread' : ∀ x ∈ ofText text', Readable x.2 := by decide +kernel
  have hcode : codeSection (statements (ofText text)) =
      codeSection (statements (ofText text')) := by decide +kernel
  have hdata : dataSection (statements (ofText text)) =
      dataSection (statements (ofText text')) := by decide +kernel
  have hnames : ∀ s ∈ statements (ofText text), ∀ t ∈ statements (ofText text),
      s.isData = false → t.isData = true → s.binding? ≠ t.binding? := by decide +kernel
  have hok : ((new none).assemble text).2 = .ok () := by decide +kernel
  exact ⟨hread, hread', hcode, hdata, hok, assemble_of_sameSections none none
    (fun x hx => (hread x hx).imp fun _ h => h.1) (fun x hx => (hread' x hx).imp fun _ h => h.1)
    hcode hdata fun _ _ hl hd => hnames _ hl _ hd rfl rfl rfl⟩

end Assembler

end Nibble
