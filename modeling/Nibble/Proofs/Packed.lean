import Nibble.Proofs.Resolution
import Nibble.Proofs.Scan

/-! # Packed images

The image after any lines that pass is packed: code from the first cell up, data from the last cell
down, zeros between them, and words everywhere. Resolving its symbols leaves words only, which is
why the range is not checked again.
-/

namespace Nibble

/-- The invariant of an image that is filled line by line. -/
structure Image.Packed (image : Image) : Prop where
  length_memory : image.memory.length = memorySize
  codeCursor : 0 ≤ image.codeCursor ∧ image.codeCursor ≤ memorySize
  dataCursor : -1 ≤ image.dataCursor ∧ image.dataCursor ≤ wordLimit
  apart : image.codeCursor ≤ image.dataCursor + 1
  cells : ∀ n, .value n ∈ image.memory → IsNibble n
  symbols : ∀ b ∈ image.symbols.bindings, IsNibble b.2
  free : ∀ i : Nat, image.codeCursor ≤ i → i ≤ image.dataCursor →
    image.memory[i]? = some (.value 0)
  data : ∀ i : Nat, image.dataCursor < i → i < memorySize →
    ∃ n, image.memory[i]? = some (.value n)
  references : ∀ (i : Nat) r, image.memory[i]? = some (.symbol r) → i < image.codeCursor

namespace Layout

variable {l : Layout} {i : Nat}

theorem code_gap_data (h : l.size ≤ memorySize) :
    l.code.length + (memorySize - l.size) + l.data.length = memorySize := by
  unfold size at *
  omega

theorem getElem?_memory_of_free (h : l.size ≤ memorySize) (hc : l.code.length ≤ i)
    (hd : i + l.data.length < memorySize) : l.image.memory[i]? = some (.value 0) := by
  have hgap := code_gap_data h
  have hlt : i - l.code.length < memorySize - l.size := by omega
  rw [image, List.append_assoc, List.getElem?_append_right hc,
    List.getElem?_append_left (by simpa using hlt), List.getElem?_replicate_of_lt hlt]

theorem getElem?_memory_of_data (h : l.size ≤ memorySize) (i : Nat) :
    l.image.memory[memorySize - l.data.length + i]? = (l.data[i]?).map fun n => .value n := by
  have hgap := code_gap_data h
  have hle : (l.code ++ List.replicate (memorySize - l.size) (Cell.value 0)).length =
      memorySize - l.data.length := by
    rw [List.length_append, List.length_replicate]
    omega
  rw [image, List.getElem?_append_right (by omega), hle, Nat.add_sub_cancel_left, List.getElem?_map]

theorem length_memory (h : l.size ≤ memorySize) : l.image.memory.length = memorySize := by
  have hgap := code_gap_data h
  simp only [image, List.length_append, List.length_replicate, List.length_map]
  omega

theorem framed (h : l.size ≤ memorySize) : l.image.Framed where
  length_memory := congrArg Nat.cast (length_memory h)
  codeCursor := Int.natCast_nonneg _
  dataCursor := by
    simp only [image, Layout.dataCursor]
    omega

theorem exists_value_of_le (h : l.size ≤ memorySize) (hc : l.code.length ≤ i)
    (hi : i < memorySize) : ∃ n, l.image.memory[i]? = some (.value n) := by
  by_cases hd : i + l.data.length < memorySize
  · exact ⟨0, getElem?_memory_of_free h hc hd⟩
  · obtain ⟨k, rfl⟩ := Nat.exists_eq_add_of_le (Nat.sub_le_iff_le_add.mpr (Nat.not_lt.mp hd))
    have hk : k < l.data.length := by omega
    exact ⟨l.data[k], by rw [getElem?_memory_of_data h, List.getElem?_eq_getElem hk]; rfl⟩

theorem Fits.packed (h : l.Fits) : l.image.Packed where
  length_memory := length_memory h.size
  codeCursor := by
    have := code_gap_data h.size
    simp only [image]
    omega
  dataCursor := by
    have := code_gap_data h.size
    simp only [image, Layout.dataCursor, memorySize, wordLimit] at *
    omega
  apart := by
    have := code_gap_data h.size
    simp only [image, Layout.dataCursor]
    omega
  cells _ := h.isNibble_of_mem_memory
  symbols := h.symbols
  free i hc hd := by
    simp only [image, Layout.dataCursor] at hc hd
    exact getElem?_memory_of_free h.size (by omega) (by omega)
  data i hd hi := by
    have := code_gap_data h.size
    simp only [image, Layout.dataCursor] at hd
    exact exists_value_of_le h.size (by omega) hi
  references i r hr := by
    by_contra hc
    have hle : l.code.length ≤ i := Int.ofNat_le.mp (Int.not_lt.mp hc)
    have hi : i < memorySize := length_memory h.size ▸ (List.getElem?_eq_some_iff.mp hr).1
    obtain ⟨n, hn⟩ := exists_value_of_le h.size hle hi
    rw [hr] at hn
    cases hn

end Layout

theorem SymbolTable.isNibble_of_find? {t : SymbolTable} {name : String} {address : Int}
    (h : ∀ b ∈ t.bindings, IsNibble b.2) (hf : t.find? name = some address) :
    IsNibble address := by
  obtain ⟨b, hb, rfl⟩ := Option.map_eq_some_iff.mp hf
  exact h b (List.mem_of_find?_eq_some hb)

theorem Image.Packed.isNibble_number {image : Image} {cell : Cell} (h : image.Packed)
    (hc : cell ∈ image.memory) (hb : cell.Bound image.symbols) :
    IsNibble (cell.number image.symbols.address) := by
  cases cell with
  | value n => exact h.cells n hc
  | symbol r =>
    obtain ⟨address, ha⟩ := hb
    rw [Cell.number, SymbolTable.address, ha, Option.getD_some]
    exact SymbolTable.isNibble_of_find? h.symbols ha

/-- Resolving a packed image yields a memory of words. -/
theorem Image.Packed.words_of_resolve {image image' : Image} (h : image.Packed)
    (hr : image.resolve = .ok image') : ∃ words : List Nat, words.length = memorySize ∧
      (∀ n ∈ words, n ≤ wordLimit) ∧ image'.memory = words.map fun n => .value n := by
  obtain ⟨hb, rfl⟩ := Image.resolve_eq_ok_iff.mp hr
  refine ⟨image.memory.map fun cell => (cell.number image.symbols.address).toNat, ?_, ?_, ?_⟩
  · rw [List.length_map, h.length_memory]
  · intro n hn
    obtain ⟨cell, hc, rfl⟩ := List.mem_map.mp hn
    obtain ⟨k, hk, he⟩ := (h.isNibble_number hc (hb cell hc)).exists_nat
    rw [he, Int.toNat_natCast]
    exact Nat.le_of_lt_succ hk
  · rw [List.map_map, List.map_map]
    apply List.map_congr_left
    intro cell hc
    have h0 := (h.isNibble_number hc (hb cell hc)).1
    exact congrArg Cell.value (Int.toNat_of_nonneg h0).symm

namespace Assembler

open Source

/-- The image of an assembled text is that of the layout of its items, with the symbols resolved. -/
theorem image_of_assemble {file : Option String} {text : String} {a : Assembler} {l : Layout}
    (hl : l = Layout.addAll .empty (items (ofText text)))
    (h : (new file).assemble text = (a, .ok ())) :
    l.Fits ∧ (∀ cell ∈ l.image.memory, cell.Bound l.symbols) ∧ a.image = { l.image with
      memory := (l.image.memory.map (Cell.number l.symbols.address)).map Cell.value } := by
  obtain ⟨b, image, hr, hb, rfl⟩ := assemble_eq_ok_iff.mp h
  obtain ⟨himage, hfits⟩ := ((holds_new file).of_feed hb).1
  rw [← hl] at himage hfits
  obtain ⟨hbound, rfl⟩ := Image.resolve_eq_ok_iff.mp hr
  rw [himage] at hbound ⊢
  exact ⟨hfits, hbound, rfl⟩

/--
However many lines have passed, the image is packed, and no later line takes a cursor back. The
memory of an assembled text is sixteen words.
-/
theorem packed_of_feed_and_assemble (file : Option String) :
    (∀ before after a b, (new file).feed before = (a, .ok ()) → a.feed after = (b, .ok ()) →
      a.image.Packed ∧ b.image.Packed ∧ a.image.codeCursor ≤ b.image.codeCursor ∧
        b.image.dataCursor ≤ a.image.dataCursor) ∧
      ∀ text a, (new file).assemble text = (a, .ok ()) →
        ∃ words : List Nat, words.length = memorySize ∧ (∀ n ∈ words, n ≤ wordLimit) ∧
          a.image.memory = words.map fun n => .value n := by
  constructor
  · intro before after a b ha hb
    have hla := ((holds_new file).of_feed ha).1
    have hlb := (hla.of_feed hb).1
    obtain ⟨hcode, hdata⟩ := Layout.length_le_addAll
      (Layout.addAll .empty (Source.items before)) (Source.items after)
    rw [hla.image, hlb.image]
    refine ⟨hla.fits.packed, hlb.fits.packed, ?_, ?_⟩
    · exact Int.ofNat_le.mpr hcode
    · simp only [Layout.image, Layout.dataCursor]
      omega
  · intro text a h
    obtain ⟨b, image, hr, hb, rfl⟩ := assemble_eq_ok_iff.mp h
    have hlb := ((holds_new file).of_feed hb).1
    exact Image.Packed.words_of_resolve (hlb.image ▸ hlb.fits.packed) hr

theorem packed_of_feed_and_assemble_forward_jump :
    let before := [(some 1, "jmp end".toList), (some 2, ".data n, 7".toList)]
    let after := [(some 3, "prnt %r1".toList), (some 4, "end:".toList)]
    ∃ a b c, (new none).feed before = (a, .ok ()) ∧ a.feed after = (b, .ok ()) ∧
      (new none).assemble "jmp end\n.data n, 7\nprnt %r1\nend:" = (c, .ok ()) ∧
      (a.image.Packed ∧ b.image.Packed ∧ a.image.codeCursor ≤ b.image.codeCursor ∧
        b.image.dataCursor ≤ a.image.dataCursor) ∧
      ∃ words : List Nat, words.length = memorySize ∧ (∀ n ∈ words, n ≤ wordLimit) ∧
        c.image.memory = words.map fun n => .value n := by
  intro before after
  have ha : ((new none).feed before).2 = .ok () := by rfl
  have hb : (((new none).feed before).1.feed after).2 = .ok () := by rfl
  have hc : ((new none).assemble "jmp end\n.data n, 7\nprnt %r1\nend:").2 = .ok () := by rfl
  obtain ⟨hpacked, hwords⟩ := packed_of_feed_and_assemble none
  exact ⟨_, _, _, Prod.ext rfl ha, Prod.ext rfl hb, Prod.ext rfl hc,
    hpacked _ _ _ _ (Prod.ext rfl ha) (Prod.ext rfl hb), hwords _ _ (Prod.ext rfl hc)⟩

end Assembler

end Nibble
