import Nibble.Assembler
import Nibble.Proofs.Outcome

/-! # Resolving symbols

A cell is resolved to its number, which for a reference is the address of its name. Resolving an
image succeeds exactly if every name in it is bound, and then resolves each cell on its own. Without
an address for some name nothing is resolved, and once everything is resolved nothing changes any
more.
-/

namespace Nibble

def SymbolTable.address (t : SymbolTable) (name : String) : Int :=
  (t.find? name).getD 0

namespace Cell

def number (address : String → Int) : Cell → Int
  | value n => n
  | symbol r => address r.name

def Bound (symbols : SymbolTable) : Cell → Prop
  | value _ => True
  | symbol r => ∃ a, symbols.find? r.name = some a

end Cell

namespace Image

variable {symbols : SymbolTable}

theorem resolveCell_eq_ok_iff {cell cell' : Cell} :
    resolveCell symbols cell = .ok cell' ↔
      cell.Bound symbols ∧ cell' = .value (cell.number symbols.address) := by
  cases cell with
  | value n => simp [resolveCell, Cell.Bound, Cell.number, eq_comm]
  | symbol r =>
    simp only [resolveCell, Cell.Bound, Cell.number, SymbolTable.address]
    split
    next a ha => simp [ha, eq_comm]
    next hn => simp [hn]

theorem mapM_resolveCell_eq_ok_iff {cells cells' : List Cell} :
    cells.mapM (resolveCell symbols) = .ok cells' ↔
      (∀ cell ∈ cells, cell.Bound symbols) ∧
        cells' = (cells.map (Cell.number symbols.address)).map Cell.value := by
  rw [mapM_eq_ok_iff]
  simp only [resolveCell_eq_ok_iff]
  constructor
  · intro h
    induction h with
    | nil => simp
    | cons hc _ ih =>
      obtain ⟨hb, rfl⟩ := hc
      exact ⟨List.forall_mem_cons.mpr ⟨hb, ih.1⟩, congrArg _ ih.2⟩
  · rintro ⟨hb, rfl⟩
    rw [List.map_map, List.forall₂_map_right_iff, List.forall₂_same]
    exact fun cell hc => ⟨hb cell hc, rfl⟩

theorem resolve_eq_ok_iff {image image' : Image} :
    image.resolve = .ok image' ↔ (∀ cell ∈ image.memory, cell.Bound image.symbols) ∧
      image' = { image with
        memory := (image.memory.map (Cell.number image.symbols.address)).map Cell.value } := by
  simp only [resolve, bind_eq_ok_iff, mapM_resolveCell_eq_ok_iff]
  constructor
  · rintro ⟨cells, ⟨hb, rfl⟩, h⟩
    cases h
    exact ⟨hb, rfl⟩
  · rintro ⟨hb, rfl⟩
    exact ⟨_, ⟨hb, rfl⟩, rfl⟩

theorem resolveCell_eq_error_iff {cell : Cell} {r : Reference} :
    resolveCell symbols cell = .error r ↔ cell = .symbol r ∧ symbols.find? r.name = none := by
  cases cell with
  | value n => simp [resolveCell]
  | symbol r' =>
    simp only [resolveCell, Cell.symbol.injEq]
    cases hf : symbols.find? r'.name with
    | some a =>
      simp only [reduceCtorEq, false_iff, not_and]
      rintro rfl
      simp [hf]
    | none =>
      simp only [Except.error.injEq, iff_self_and]
      rintro rfl
      exact hf

/-- Resolving fails at the first reference to a name that is not bound. -/
theorem resolve_eq_error_iff {image : Image} {r : Reference} :
    image.resolve = .error r ↔ ∃ before after, image.memory = before ++ .symbol r :: after ∧
      (∀ cell ∈ before, cell.Bound image.symbols) ∧ image.symbols.find? r.name = none := by
  have hresolve : image.resolve = .error r ↔
      image.memory.mapM (resolveCell image.symbols) = .error r := by
    rw [resolve, bind_eq_error_iff]
    simp [pure, Except.pure]
  rw [hresolve, mapM_eq_error_iff]
  simp only [resolveCell_eq_ok_iff, resolveCell_eq_error_iff, exists_and_left, exists_eq, and_true]
  constructor
  · rintro ⟨before, cell, after, hm, hbefore, rfl, hr⟩
    exact ⟨before, after, hm, hbefore, hr⟩
  · rintro ⟨before, after, hm, hbefore, hr⟩
    exact ⟨before, _, after, hm, hbefore, rfl, hr⟩

theorem mem_of_resolve_eq_error {image : Image} {r : Reference} (h : image.resolve = .error r) :
    .symbol r ∈ image.memory ∧ image.symbols.find? r.name = none := by
  obtain ⟨before, after, hm, -, hn⟩ := resolve_eq_error_iff.mp h
  exact ⟨hm ▸ List.mem_append_right _ (.head _), hn⟩

variable {image image' : Image}

/-- The lowest reference in an image whose name has no address. -/
structure LowestUnbound (image : Image) (address : Nat) (r : Reference) : Prop where
  cell : image.memory[address]? = some (.symbol r)
  unbound : image.symbols.find? r.name = none
  below : ∀ i < address, ∀ s, image.memory[i]? = some (.symbol s) →
    image.symbols.find? s.name ≠ none

/-- An image with a number in every cell, and nothing else changed. -/
structure ResolvesTo (image image' : Image) : Prop where
  frame : image' = { image with memory := image'.memory }
  length_memory : image'.memory.length = image.memory.length
  value : ∀ (i : Nat) n, image.memory[i]? = some (.value n) → image'.memory[i]? = some (.value n)
  symbol : ∀ (i : Nat) r, image.memory[i]? = some (.symbol r) →
    ∃ address, image.symbols.find? r.name = some address ∧
      image'.memory[i]? = some (.value address)

theorem resolve_eq_error_iff_lowestUnbound {r : Reference} :
    image.resolve = .error r ↔ ∃ address, image.LowestUnbound address r := by
  rw [resolve_eq_error_iff]
  constructor
  · rintro ⟨before, after, hm, hbefore, hr⟩
    refine ⟨before.length, ?_, hr, ?_⟩
    · rw [hm, List.getElem?_append_right (Nat.le_refl _), Nat.sub_self]
      rfl
    · intro i hi s hs hnone
      rw [hm, List.getElem?_append_left hi] at hs
      obtain ⟨address, ha⟩ := hbefore _ (List.mem_of_getElem? hs)
      rw [hnone] at ha
      cases ha
  · rintro ⟨address, h⟩
    obtain ⟨hlt, hcell⟩ := List.getElem?_eq_some_iff.mp h.cell
    refine ⟨image.memory.take address, image.memory.drop (address + 1), ?_, ?_, h.unbound⟩
    · rw [← hcell, List.getElem_cons_drop, List.take_append_drop]
    · intro cell hc
      obtain ⟨i, hi⟩ := List.mem_iff_getElem?.mp hc
      rw [List.getElem?_take] at hi
      split at hi
      next hia =>
        cases cell with
        | value n => trivial
        | symbol s => exact Option.ne_none_iff_exists'.mp (h.below i hia s hi)
      next => cases hi

theorem resolvesTo_of_resolve (h : image.resolve = .ok image') : image.ResolvesTo image' := by
  obtain ⟨hbound, rfl⟩ := resolve_eq_ok_iff.mp h
  have hcell : ∀ (i : Nat) cell, image.memory[i]? = some cell →
      ((image.memory.map (Cell.number image.symbols.address)).map Cell.value)[i]? =
        some (.value (cell.number image.symbols.address)) := by
    intro i cell hi
    rw [List.getElem?_map, List.getElem?_map, hi]
    rfl
  refine ⟨rfl, ?_, fun i n hi => hcell i _ hi, ?_⟩
  · rw [List.length_map, List.length_map]
  · intro i r hi
    obtain ⟨address, ha⟩ := hbound _ (List.mem_of_getElem? hi)
    refine ⟨address, ha, ?_⟩
    rw [hcell i _ hi, Cell.number, SymbolTable.address, ha]
    rfl

theorem resolve_of_values (h : ∀ cell ∈ image.memory, ∃ n, cell = .value n) :
    image.resolve = .ok image := by
  have hcell : ∀ cell ∈ image.memory,
      (Cell.value ∘ Cell.number image.symbols.address) cell = id cell := by
    intro cell hc
    obtain ⟨n, rfl⟩ := h cell hc
    rfl
  have hmemory : (image.memory.map (Cell.number image.symbols.address)).map Cell.value =
      image.memory := by
    rw [List.map_map, List.map_congr_left hcell, List.map_id]
  rw [resolve_eq_ok_iff, hmemory]
  refine ⟨?_, rfl⟩
  intro cell hc
  obtain ⟨n, rfl⟩ := h cell hc
  trivial

theorem memory_foldl_addSymbol (image : Image) (bindings : List (String × Int)) :
    (bindings.foldl (fun i b => i.addSymbol b.1 b.2) image).memory = image.memory := by
  induction bindings generalizing image with
  | nil => rfl
  | cons b bindings ih => exact ih _

/--
Resolving an image replaces every reference or none. It fails exactly if some name has no address;
it names the lowest such reference then, with its line, and an assembler that has the image is left
as it was. Otherwise each cell has its number afterwards, and resolving again changes nothing,
whatever names are bound in between.
-/
theorem resolve_all_or_none (image : Image) :
    ((∃ r, image.resolve = .error r) ↔
      ∃ r, .symbol r ∈ image.memory ∧ image.symbols.find? r.name = none) ∧
    (∀ r, image.resolve = .error r ↔ ∃ address, image.LowestUnbound address r) ∧
    (∀ r, image.resolve = .error r →
      (∀ a : Assembler, a.image = image → a.resolve = (a, .error r)) ∧
      ∀ file, r.undefined file = .diagnostic ⟨.undefinedSymbol r.name, ⟨file, r.line⟩⟩) ∧
    ∀ image', image.resolve = .ok image' → image.ResolvesTo image' ∧
      (∀ a : Assembler, a.image = image → a.resolve = ({ a with image := image' }, .ok ())) ∧
      ∀ bindings : List (String × Int),
        let later := bindings.foldl (fun i b => i.addSymbol b.1 b.2) image'
        later.resolve = .ok later := by
  refine ⟨?_, fun r => resolve_eq_error_iff_lowestUnbound, ?_, ?_⟩
  · constructor
    · rintro ⟨r, hr⟩
      exact ⟨r, mem_of_resolve_eq_error hr⟩
    · rintro ⟨r, hmem, hnone⟩
      cases hr : image.resolve with
      | error r' => exact ⟨r', rfl⟩
      | ok image' =>
        obtain ⟨address, ha⟩ := (resolve_eq_ok_iff.mp hr).1 _ hmem
        rw [hnone] at ha
        cases ha
  · intro r hr
    refine ⟨?_, fun _ => rfl⟩
    rintro a rfl
    rw [Assembler.resolve, hr]
  · intro image' h
    refine ⟨resolvesTo_of_resolve h, ?_, ?_⟩
    · rintro a rfl
      rw [Assembler.resolve, h]
    · intro bindings
      apply resolve_of_values
      rw [memory_foldl_addSymbol, (resolve_eq_ok_iff.mp h).2]
      intro cell hc
      obtain ⟨n, -, rfl⟩ := List.mem_map.mp hc
      exact ⟨n, rfl⟩

/-- Two names without an address, the lower of which is reported; and an image that is resolved. -/
theorem resolve_all_or_none_two :
    let symbols : SymbolTable := ⟨[("a", 3)]⟩
    let broken : Image := ⟨4, [.value 7, .symbol ⟨"a", some 1⟩, .symbol ⟨"c", some 5⟩,
      .symbol ⟨"b", some 2⟩], 4, 3, symbols⟩
    let whole : Image := ⟨2, [.symbol ⟨"a", none⟩, .value 9], 1, 0, symbols⟩
    let resolved : Image := ⟨2, [.value 3, .value 9], 1, 0, symbols⟩
    broken.resolve = .error ⟨"c", some 5⟩ ∧
      (∃ address, broken.LowestUnbound address ⟨"c", some 5⟩) ∧
      whole.resolve = .ok resolved ∧ whole.ResolvesTo resolved ∧
      (resolved.addSymbol "a" 8).resolve = .ok (resolved.addSymbol "a" 8) := by
  intro symbols broken whole resolved
  have hbroken : broken.resolve = .error ⟨"c", some 5⟩ := by rfl
  have hwhole : whole.resolve = .ok resolved := by rfl
  have hlowest := ((resolve_all_or_none broken).2.1 _).mp hbroken
  obtain ⟨hto, -, hlater⟩ := (resolve_all_or_none whole).2.2.2 _ hwhole
  exact ⟨hbroken, hlowest, hwhole, hto, hlater [("a", 8)]⟩

end Image

end Nibble
