import Nibble.Proofs.Filling
import Nibble.Proofs.Source

/-! # Layouts

A layout is what has been put into an image so far, apart from where. As long as there is room, an
item is entered into the image of a layout exactly as it is added to the layout; without room its
line fails.
-/

namespace Nibble

/-- What fills an image: the code upward, the data downward with the latest first, the symbols. -/
structure Layout where
  code : List Cell
  data : List Nat
  symbols : SymbolTable
  deriving DecidableEq, Repr

namespace Layout

def empty : Layout := ⟨[], [], .empty⟩

def size (l : Layout) : Nat :=
  l.code.length + l.data.length

def dataCursor (l : Layout) : Int :=
  memorySize - 1 - l.data.length

def image (l : Layout) : Image where
  size := memorySize
  memory := l.code ++ List.replicate (memorySize - l.size) (.value 0) ++
    l.data.map fun n => .value n
  codeCursor := l.code.length
  dataCursor := l.dataCursor
  symbols := l.symbols

def add (l : Layout) (line : Option Int) : Item → Layout
  | .data name value =>
    { l with data := value :: l.data, symbols := l.symbols.insert name l.dataCursor }
  | .label name => { l with symbols := l.symbols.insert name l.code.length }
  | .command c => { l with code := l.code ++ c.cells l.code.length line }

theorem insertCode_image {l : Layout} (h : l.size < memorySize) (cell : Cell) :
    l.image.insertCode cell = .ok { l with code := l.code ++ [cell] }.image := by
  obtain ⟨k, hk⟩ : ∃ k, memorySize = l.size + (k + 1) := Nat.exists_eq_add_of_lt h
  have hm : l.image.memory = l.code ++ .value 0 ::
      (List.replicate k (.value 0) ++ l.data.map fun n => .value n) := by
    simp [image, hk, List.replicate_succ]
  have hs : l.image.codeCursor < l.image.size := by
    simp only [image, size] at *
    omega
  have hfree : memorySize - (⟨l.code ++ [cell], l.data, l.symbols⟩ : Layout).size = k := by
    simp only [size, List.length_append, List.length_singleton] at *
    omega
  rw [Image.insertCode_eq hm rfl hs]
  simp [image, dataCursor, hfree]

theorem insertCells_image {l : Layout} {cells : List Cell}
    (h : l.size + cells.length ≤ memorySize) :
    l.image.insertCells cells = ({ l with code := l.code ++ cells }.image, .ok ()) := by
  induction cells generalizing l with
  | nil => simp [Image.insertCells]
  | cons cell cells ih =>
    rw [List.length_cons] at h
    have hl :
        (⟨l.code ++ [cell], l.data, l.symbols⟩ : Layout).size + cells.length ≤ memorySize := by
      simp only [size, List.length_append, List.length_singleton] at *
      omega
    rw [Image.insertCells, insertCode_image (by omega)]
    change Image.insertCells _ _ = _
    simpa using ih hl

theorem insertData_image {l : Layout} (h : l.size < memorySize) (n : Nat) :
    l.image.insertData (.value n) = .ok { l with data := n :: l.data }.image := by
  obtain ⟨k, hk⟩ : ∃ k, memorySize = l.size + (k + 1) := Nat.exists_eq_add_of_lt h
  have hm : l.image.memory = (l.code ++ List.replicate k (.value 0)) ++ .value 0 ::
      (l.data.map fun n => .value n) := by
    simp [image, hk, List.replicate_succ']
  have hs : l.image.dataCursor = (l.code ++ List.replicate k (Cell.value 0)).length := by
    simp [image, size, dataCursor] at *
    omega
  have hfree : memorySize - (⟨l.code, n :: l.data, l.symbols⟩ : Layout).size = k := by
    simp only [size, List.length_cons] at *
    omega
  rw [Image.insertData_eq hm hs]
  simp [image, dataCursor, hfree]
  omega

/-- A layout that an image has room for, with words only. -/
structure Fits (l : Layout) : Prop where
  size : l.size ≤ memorySize
  code : ∀ n, .value n ∈ l.code → IsNibble n
  data : ∀ n ∈ l.data, n ≤ wordLimit
  symbols : ∀ b ∈ l.symbols.bindings, IsNibble b.2

/-- Whether there is room for another item. A label may not stand after the last cell. -/
def Room (l : Layout) : Item → Prop
  | .data _ _ => l.size + 1 ≤ memorySize
  | .label _ => l.code.length < memorySize
  | .command c => l.size + c.size ≤ memorySize

theorem fits_empty : empty.Fits :=
  ⟨by decide, by simp [empty], by simp [empty], by simp [empty, SymbolTable.empty]⟩

variable {l : Layout} {item : Item} {line : Option Int}

theorem dataCursor_le (l : Layout) : l.dataCursor ≤ wordLimit := by
  unfold dataCursor memorySize wordLimit
  omega

theorem isNibble_dataCursor (h : l.size < memorySize) : IsNibble l.dataCursor := by
  unfold IsNibble dataCursor size wordLimit memorySize at *
  omega

theorem Fits.insert (hf : l.Fits) {name : String} {address : Int} (ha : IsNibble address) :
    ∀ b ∈ (l.symbols.insert name address).bindings, IsNibble b.2 := by
  intro b hb
  rcases Keyed.mem_of_mem_insert hb with rfl | hb
  · exact ha
  · exact hf.symbols b hb

/-- A layout with room for an item fits with it. -/
theorem Fits.add (hf : l.Fits) (hs : item.Small) (hr : l.Room item) : (l.add line item).Fits := by
  cases item with
  | data name value =>
    exact ⟨hr, hf.code, List.forall_mem_cons.mpr ⟨hs, hf.data⟩,
      hf.insert (isNibble_dataCursor hr)⟩
  | label name => exact ⟨hf.size, hf.code, hf.data, hf.insert (isNibble_natCast_iff.mpr hr)⟩
  | command c =>
    have hfit : l.code.length + c.size ≤ memorySize := by
      unfold Room Layout.size at hr
      omega
    refine ⟨?_, ?_, hf.data, hf.symbols⟩
    · simp only [Layout.add, Layout.size, Room, List.length_append, Command.length_cells] at *
      omega
    · intro n hn
      rcases List.mem_append.mp hn with hn | hn
      · exact hf.code n hn
      · exact Command.isNibble_of_mem_cells hs hfit hn

theorem Fits.isNibble_of_mem_memory (hf : l.Fits) {n : Int} (hn : .value n ∈ l.image.memory) :
    IsNibble n := by
  simp only [image, List.mem_append, List.mem_replicate, List.mem_map, Cell.value.injEq] at hn
  rcases hn with (hn | ⟨-, rfl⟩) | ⟨k, hk, rfl⟩
  · exact hf.code n hn
  · decide
  · exact isNibble_natCast_iff.mpr (Nat.lt_succ_of_le (hf.data k hk))

theorem Fits.checkOverlap (hf : l.Fits) : l.image.checkOverlap = .ok () := by
  rw [Image.checkOverlap_eq_ok_iff]
  have := hf.size
  unfold Layout.size at this
  simp only [image, dataCursor]
  omega

theorem Fits.checkRange (hf : l.Fits) : l.image.checkRange wordLimit = .ok () :=
  Image.checkRange_eq_ok_iff.mpr
    ⟨fun _ hn => (hf.isNibble_of_mem_memory hn).2, fun b hb => (hf.symbols b hb).2⟩

end Layout

namespace Assembler

/-- The image of the assembler is that of a layout that fits. -/
structure Holds (a : Assembler) (l : Layout) : Prop where
  image : a.image = l.image
  fits : l.Fits

theorem holds_new (file : Option String) : (new file).Holds .empty :=
  ⟨rfl, Layout.fits_empty⟩

variable {a a' : Assembler} {l : Layout} {s : Statement} {item : Item} {source : String}
  {line : Option Int}

@[simp] theorem image_bind (a : Assembler) (name : String) (address : Int) (line : Option Int) :
    (a.bind name address line).image = a.image.addSymbol name address := rfl

@[simp] theorem image_record (a : Assembler) (row : Row) : (a.record row).1.image = a.image := by
  unfold record
  split <;> rfl

@[simp] theorem file_record (a : Assembler) (row : Row) : (a.record row).1.file = a.file := by
  unfold record
  split <;> rfl

theorem file_enter (a : Assembler) (source : String) (line : Option Int) (s : Statement) :
    (a.enter source line s).1.file = a.file := by
  cases s with
  | data name value =>
    simp only [enter]
    split
    · rfl
    · exact file_record ..
  | label name => exact file_record ..
  | instruction mnemonic tokens =>
    simp only [enter]
    split
    · rfl
    · split
      · rfl
      · exact file_record ..

theorem enter_data_eq_ok_iff {name : String} {value : Nat} :
    a.enter source line (.data name value) = (a', .ok ()) ↔
      ∃ image, a.image.insertData (.value value) = .ok image ∧
        ({ a with image }.bind name a.image.dataCursor line).record
          ⟨a.image.dataCursor, [.value value], line, source⟩ = (a', .ok ()) := by
  simp only [enter]
  cases a.image.insertData (.value value) with
  | error fault => simp
  | ok image => simp

theorem enter_instruction_eq_ok_iff {mnemonic : String} {tokens : List String} :
    a.enter source line (.instruction mnemonic tokens) = (a', .ok ()) ↔
      ∃ c image, Command.ofTokens mnemonic tokens = some c ∧
        a.image.insertCells (c.cells a.image.codeCursor line) = (image, .ok ()) ∧
        { a with image }.record
          ⟨a.image.codeCursor, c.cells a.image.codeCursor line, line, source⟩ = (a', .ok ()) := by
  constructor
  · intro h
    simp only [enter] at h
    split at h
    · cases h
    next cells he =>
      obtain ⟨c, hc, rfl⟩ := Instruction.encode_eq_ok_iff.mp he
      split at h
      · cases h
      next image hi => exact ⟨c, image, hc, hi, h⟩
  · rintro ⟨c, image, hc, hi, h⟩
    have he : Instruction.encode mnemonic tokens a.image.codeCursor line =
        .ok (c.cells a.image.codeCursor line) := Instruction.encode_eq_ok_iff.mpr ⟨c, hc, rfl⟩
    simp only [enter, he]
    simp only [hi, h]

theorem Holds.record (h : a.Holds l) (row : Row) :
    ∃ a', a.record row = (a', .ok ()) ∧ a'.Holds l := by
  have hok : a.record row = ({ a with rows := a.rows.push row }, .ok ()) := by
    rw [record_eq_ok_iff, h.image]
    exact ⟨h.fits.checkOverlap, h.fits.checkRange, rfl⟩
  exact ⟨_, hok, h.image, h.fits⟩

theorem Holds.enter (h : a.Holds l) (hi : s.item? = some item) (hs : item.Small)
    (hr : l.Room item) :
    ∃ a', a.enter source line s = (a', .ok ()) ∧ a'.Holds (l.add line item) := by
  have hf : (l.add line item).Fits := h.fits.add hs hr
  cases Statement.means_of_item? hi with
  | data name value =>
    simp only [Assembler.enter, h.image, l.insertData_image hr value]
    exact Holds.record ⟨rfl, hf⟩ _
  | label name =>
    have hb : (a.bind name a.image.codeCursor line).Holds (l.add line (.label name)) := by
      refine ⟨?_, hf⟩
      rw [image_bind, h.image]
      rfl
    exact hb.record _
  | @command mnemonic tokens c hc =>
    have he : Instruction.encode mnemonic tokens a.image.codeCursor line =
        .ok (c.cells l.code.length line) := by
      rw [h.image, Instruction.encode_eq_ok_iff]
      exact ⟨c, hc, rfl⟩
    have hins : l.image.insertCells (c.cells l.code.length line) =
        ((l.add line (.command c)).image, .ok ()) := by
      apply l.insertCells_image
      rw [Command.length_cells]
      exact hr
    simp only [Assembler.enter, he]
    simp only [h.image, hins]
    exact Holds.record ⟨rfl, hf⟩ _

theorem Holds.room_of_enter (h : a.Holds l) (he : a.enter source line s = (a', .ok ())) :
    ∃ item, s.item? = some item ∧ l.Room item := by
  have hsize := h.fits.size
  cases s with
  | data name value =>
    refine ⟨_, rfl, ?_⟩
    obtain ⟨image, hi, hr⟩ := enter_data_eq_ok_iff.mp he
    have hc := Image.insertData_eq_ok hi
    have ho := Image.checkOverlap_eq_ok_iff.mp (record_eq_ok_iff.mp hr).1
    simp only [image_bind, Image.addSymbol, hc, h.image, Layout.image] at ho
    unfold Layout.Room Layout.size Layout.dataCursor at *
    omega
  | label name =>
    refine ⟨_, rfl, ?_⟩
    have hr := (Image.checkRange_eq_ok_iff.mp (record_eq_ok_iff.mp he).2.1).2
    have hb := hr _ (Keyed.mem_insert_self a.image.symbols.bindings name a.image.codeCursor)
    rw [h.image] at hb
    simp only [Layout.image] at hb
    unfold Layout.Room wordLimit memorySize at *
    omega
  | instruction mnemonic tokens =>
    obtain ⟨c, image, hc, hi, hr⟩ := enter_instruction_eq_ok_iff.mp he
    refine ⟨.command c, by simp [Statement.item?, hc], ?_⟩
    have hcursors := Image.insertCells_eq_ok hi
    have ho := Image.checkOverlap_eq_ok_iff.mp (record_eq_ok_iff.mp hr).1
    simp only [hcursors, h.image, Layout.image, Command.length_cells] at ho
    unfold Layout.Room Layout.size Layout.dataCursor at *
    omega

end Assembler

end Nibble
