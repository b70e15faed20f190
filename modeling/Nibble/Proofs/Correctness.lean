import Nibble.Proofs.Simulation

/-! # Correctness

The memory of an assembled text holds the commands and data of the script of the text, and so the
machine that starts on it simulates the interpreter.
-/

namespace Nibble

namespace Script

variable {p : Script} {l : Layout}

theorem Places.address_eq (h : p.Places l) : l.symbols.address = p.value := by
  funext name
  rw [SymbolTable.address, h.symbols]
  rfl

theorem Places.size_eq (h : p.Places l) : l.size = p.size + p.data.length := by
  rw [Layout.size, h.length_code, h.data, List.length_reverse]

theorem Places.resident (h : p.Places l) (hl : l.size ≤ memorySize)
    (hgap : l.size < memorySize ∨ p.data = []) :
    p.Resident (l.image.memory.map (Cell.number p.value)) where
  length_memory := by rw [List.length_map, Layout.length_memory hl]
  code k c hc := by
    obtain ⟨line, hcells⟩ := h.code k c hc
    have hle : p.start k ≤ l.code.length := by
      have := start_add_size_le hc
      rw [h.length_code]
      omega
    have hcells' : c.cells (p.start k) line <+: l.image.memory.drop (p.start k) := by
      rw [Layout.image, List.append_assoc, List.drop_append_of_le_length hle]
      exact hcells.trans (List.prefix_append ..)
    have hmap := hcells'.map (Cell.number p.value)
    rw [Command.map_number_cells, List.map_drop] at hmap
    exact ((p.resolved c).stable_isPrefix _).trans hmap
  gap hlt := by
    have hsize := h.size_eq
    have hfree : p.size + l.data.length < memorySize := by
      rw [h.data, List.length_reverse, ← hsize]
      rcases hgap with hgap | hnil
      · exact hgap
      · rwa [hsize, hnil]
    rw [List.getElem?_map,
      Layout.getElem?_memory_of_free hl (Nat.le_of_eq h.length_code) hfree]
    rfl

theorem Places.tracks_start (h : p.Places l) (style : BellStyle) (hl : l.size ≤ memorySize)
    (hgap : l.size < memorySize ∨ p.data = []) :
    p.Tracks style (.start p) (.boot (l.image.memory.map (Cell.number p.value)) style) where
  r0 := rfl
  r1 := rfl
  text := rfl
  halted := rfl
  ip _ := rfl
  length_data := List.length_map _
  data j hj := by
    have hlen : l.data.length = p.data.length := by rw [h.data, List.length_reverse]
    have hle : p.data.length ≤ memorySize := by
      unfold Layout.size at hl
      omega
    have hindex : memorySize - 1 - j =
        memorySize - l.data.length + (p.data.length - 1 - j) := by omega
    have hrev : p.data.length - 1 - (p.data.length - 1 - j) = j := by omega
    rw [Machine.boot, Config.start, List.getElem?_map, hindex, Layout.getElem?_memory_of_data hl,
      h.data, List.getElem?_reverse (by omega), hrev, List.getElem?_map, Option.map_map]
    rfl
  resident := h.resident hl hgap
  bellStyle := rfl

theorem Places.placed (h : p.Places l) (hl : l.size ≤ memorySize)
    (hgap : l.size < memorySize ∨ p.data = []) (hlinked : p.Linked)
    (hbound : ∀ name ∈ l.names, l.Binds name) : p.Placed where
  linked := hlinked
  fits := by rwa [← h.size_eq]
  gap := by rwa [← h.size_eq]
  datum_lt := h.datum_lt
  bound k c name hc hn := by
    obtain ⟨address, ha⟩ := hbound name (h.mem_names hc hn)
    rw [h.symbols] at ha
    obtain ⟨r, hr, -⟩ := Option.map_eq_some_iff.mp ha
    exact ⟨r, hr⟩

end Script

namespace Assembler

/--
The machine simulates the interpreter: whatever number of steps the interpreter does with the
script of an assembled text, the machine on the assembled memory gets to the same state.
-/
theorem stepTimes_of_assemble {file : Option String} {text : String} {a : Assembler}
    (style : BellStyle) (h : (new file).assemble text = (a, .ok ()))
    (hlinked : (Script.ofText text).Linked)
    (hgap : a.image.codeCursor ≤ a.image.dataCursor ∨ (Script.ofText text).data = []) :
    ∃ words : List Int, a.image.memory = words.map Cell.value ∧
      ∀ n, ∃ s m,
        (Config.start (.ofText text)).stepTimes (.ofText text) style n = some s ∧
        (Machine.boot words style).stepTimes
          ((Config.start (.ofText text)).elapsed (.ofText text) style n) = .ok m ∧
        (Script.ofText text).Tracks style s m := by
  obtain ⟨b, image, hr, hb, rfl⟩ := assemble_eq_ok_iff.mp h
  obtain ⟨himage, hfits⟩ := ((holds_new file).of_feed hb).1
  have hplaces := Script.places_ofItems (Source.items (Source.ofText text))
  have hbound := Layout.exists_resolve_iff.mp ⟨image, himage ▸ hr⟩
  obtain ⟨-, rfl⟩ := Image.resolve_eq_ok_iff.mp hr
  have hgap' : (Layout.addAll .empty (Source.items (Source.ofText text))).size < memorySize ∨
      (Script.ofText text).data = [] := by
    refine hgap.imp_left fun hle => ?_
    simp only [himage, Layout.image, Layout.dataCursor] at hle
    unfold Layout.size
    omega
  have hplaced := hplaces.placed hfits.size hgap' hlinked hbound
  have hstart := hplaces.tracks_start style hfits.size hgap'
  refine ⟨_, ?_, fun n => hstart.stepTimes hplaced n⟩
  rw [himage, ← hplaces.address_eq]
  rfl

/-- Prints the numbers from three to one and rings the bell. -/
def countdown : String :=
  ".data n, 3\nloop:\nmov n, %r0\nprnt %r0\ndec %r0\nmov %r0, n\njnz loop\nbell\n"

theorem stepTimes_of_assemble_countdown :
    ∃ a, (new none).assemble countdown = (a, .ok ()) ∧ (Script.ofText countdown).Linked ∧
      (a.image.codeCursor ≤ a.image.dataCursor ∨ (Script.ofText countdown).data = []) ∧
      ∃ words : List Int, a.image.memory = words.map Cell.value ∧
        ∀ n, ∃ s m,
          (Config.start (.ofText countdown)).stepTimes (.ofText countdown) .ring n = some s ∧
          (Machine.boot words .ring).stepTimes
            ((Config.start (.ofText countdown)).elapsed (.ofText countdown) .ring n) = .ok m ∧
          (Script.ofText countdown).Tracks .ring s m := by
  have hok : ((new none).assemble countdown).2 = .ok () := by rfl
  have h : (new none).assemble countdown = (((new none).assemble countdown).1, .ok ()) :=
    Prod.ext rfl hok
  have hlinked : (Script.ofText countdown).Linked := by decide +kernel
  have hgap : ((new none).assemble countdown).1.image.codeCursor ≤
      ((new none).assemble countdown).1.image.dataCursor := by decide +kernel
  exact ⟨_, h, hlinked, .inl hgap, stepTimes_of_assemble .ring h hlinked (.inl hgap)⟩

end Assembler

end Nibble
