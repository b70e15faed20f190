import Nibble.Proofs.Filling

/-! # Insertions from both ends

An image of any size is filled with code from the first cell and with data from the last one, in
any order and also beyond the place where the two meet. The overlap check tells exactly whether
that has happened: as long as it passes every cell that was put into the image is still there, and
once it fails it never passes again.
-/

namespace Nibble

/-- A cell that is put at one of the two cursors. -/
inductive Insertion
  | code (cell : Cell)
  | data (cell : Cell)
  deriving DecidableEq, Repr

namespace Insertion

def code? : Insertion → Option Cell
  | code cell => some cell
  | data _ => none

def data? : Insertion → Option Cell
  | code _ => none
  | data cell => some cell

def codeCells (xs : List Insertion) : List Cell :=
  xs.filterMap code?

def dataCells (xs : List Insertion) : List Cell :=
  xs.filterMap data?

theorem codeCells_code (cell : Cell) (xs : List Insertion) :
    codeCells (code cell :: xs) = cell :: codeCells xs := rfl

theorem codeCells_data (cell : Cell) (xs : List Insertion) :
    codeCells (data cell :: xs) = codeCells xs := rfl

theorem dataCells_code (cell : Cell) (xs : List Insertion) :
    dataCells (code cell :: xs) = dataCells xs := rfl

theorem dataCells_data (cell : Cell) (xs : List Insertion) :
    dataCells (data cell :: xs) = cell :: dataCells xs := rfl

theorem codeCells_append (xs ys : List Insertion) :
    codeCells (xs ++ ys) = codeCells xs ++ codeCells ys :=
  List.filterMap_append

theorem dataCells_append (xs ys : List Insertion) :
    dataCells (xs ++ ys) = dataCells xs ++ dataCells ys :=
  List.filterMap_append

theorem length_eq (xs : List Insertion) :
    xs.length = (codeCells xs).length + (dataCells xs).length := by
  induction xs with
  | nil => rfl
  | cons x xs ih =>
    cases x with
    | code cell =>
      rw [codeCells_code, dataCells_code, List.length_cons, List.length_cons]
      omega
    | data cell =>
      rw [codeCells_data, dataCells_data, List.length_cons, List.length_cons]
      omega

end Insertion

namespace Image

open Insertion

def put (image : Image) : Insertion → Except Fault Image
  | .code cell => image.insertCode cell
  | .data cell => image.insertData cell

/-- The image after some insertions. One that fails changes nothing. -/
def putAll (image : Image) : List Insertion → Image
  | [] => image
  | x :: xs =>
    match image.put x with
    | .ok image => image.putAll xs
    | .error _ => image.putAll xs

/-- Those of some insertions that succeed. -/
def accepted (image : Image) : List Insertion → List Insertion
  | [] => []
  | x :: xs =>
    match image.put x with
    | .ok image => x :: image.accepted xs
    | .error _ => image.accepted xs

/-- An image of `n` cells into which some cells have been put. What it holds is known as long as
there were not more of them than there are cells. -/
structure HoldsAll (image : Image) (n : Nat) (xs : List Insertion) : Prop where
  size : image.size = n
  length_memory : image.memory.length = n
  codeCursor : image.codeCursor = (codeCells xs).length
  dataCursor : image.dataCursor = n - 1 - (dataCells xs).length
  length_code : (codeCells xs).length ≤ n
  length_data : (dataCells xs).length ≤ n
  memory : xs.length ≤ n → image.memory =
    codeCells xs ++ List.replicate (n - xs.length) (.value 0) ++ (dataCells xs).reverse
  symbols : image.symbols = .empty

theorem holdsAll_blank (n : Nat) : (blank n).HoldsAll n [] where
  size := rfl
  length_memory := by simp [blank]
  codeCursor := rfl
  dataCursor := by simp [blank, dataCells]
  length_code := Nat.zero_le n
  length_data := Nat.zero_le n
  memory _ := by simp [blank, codeCells, dataCells]
  symbols := rfl

/-- An image of `n` cells whose cursors point into it or have just left it. A cell is put where a
cursor points, or nothing is changed because the cursor has left the memory. -/
structure Bounded (image : Image) (n : Nat) : Prop where
  length_memory : image.memory.length = n
  codeCursor : 0 ≤ image.codeCursor ∧ image.codeCursor ≤ n
  dataCursor : -1 ≤ image.dataCursor ∧ image.dataCursor ≤ n - 1
  code : ∀ cell, (image.codeCursor = n ∧ image.put (.code cell) = .error (.cause .codeFull)) ∨
    ∃ address : Nat, address < n ∧ image.codeCursor = address ∧ image.put (.code cell) =
      .ok { image with memory := image.memory.set address cell, codeCursor := address + 1 }
  data : ∀ cell, (image.dataCursor = -1 ∧ image.put (.data cell) = .error (.cause .dataFull)) ∨
    ∃ address : Nat, address < n ∧ image.dataCursor = address ∧ image.put (.data cell) =
      .ok { image with memory := image.memory.set address cell, dataCursor := address - 1 }

namespace HoldsAll

variable {image image' : Image} {n : Nat} {x : Insertion} {xs ys : List Insertion} {cell : Cell}

theorem framed (h : image.HoldsAll n xs) : image.Framed where
  length_memory := by rw [h.length_memory, h.size]
  codeCursor := by
    rw [h.codeCursor]
    exact Int.natCast_nonneg _
  dataCursor := by
    rw [h.dataCursor, h.size]
    omega

theorem put_code (h : image.HoldsAll n xs) (cell : Cell) :
    image.put (.code cell) = if (codeCells xs).length = n then .error (.cause .codeFull)
      else .ok { image with
        memory := image.memory.set (codeCells xs).length cell
        codeCursor := image.codeCursor + 1 } := by
  have hle := h.length_code
  have hfull : image.size ≤ image.codeCursor ↔ (codeCells xs).length = n := by
    rw [h.size, h.codeCursor]
    omega
  have haddress : image.codeCursor.toNat = (codeCells xs).length := by
    rw [h.codeCursor]
    exact Int.toNat_natCast _
  simp only [put, h.framed.insertCode, hfull, haddress]

theorem put_data (h : image.HoldsAll n xs) (cell : Cell) :
    image.put (.data cell) = if (dataCells xs).length = n then .error (.cause .dataFull)
      else .ok { image with
        memory := image.memory.set (n - 1 - (dataCells xs).length) cell
        dataCursor := image.dataCursor - 1 } := by
  have hle := h.length_data
  have hfull : image.dataCursor < 0 ↔ (dataCells xs).length = n := by
    rw [h.dataCursor]
    omega
  have haddress : image.dataCursor.toNat = n - 1 - (dataCells xs).length := by
    rw [h.dataCursor]
    omega
  simp only [put, h.framed.insertData, hfull, haddress]

theorem memory_set_code (h : image.HoldsAll n xs) (hlen : xs.length < n) (cell : Cell) :
    image.memory.set (codeCells xs).length cell = codeCells xs ++ [cell] ++
      List.replicate (n - (xs.length + 1)) (.value 0) ++ (dataCells xs).reverse := by
  obtain ⟨k, rfl⟩ := Nat.exists_eq_add_of_lt hlen
  have hfree : xs.length + k + 1 - xs.length = k + 1 := by omega
  have hleft : xs.length + k + 1 - (xs.length + 1) = k := by omega
  rw [h.memory (by omega), hfree, hleft, List.replicate_succ]
  simp

theorem memory_set_data (h : image.HoldsAll n xs) (hlen : xs.length < n) (cell : Cell) :
    image.memory.set (n - 1 - (dataCells xs).length) cell = codeCells xs ++
      List.replicate (n - (xs.length + 1)) (.value 0) ++ (dataCells xs ++ [cell]).reverse := by
  obtain ⟨k, rfl⟩ := Nat.exists_eq_add_of_lt hlen
  have hfree : xs.length + k + 1 - xs.length = k + 1 := by omega
  have hleft : xs.length + k + 1 - (xs.length + 1) = k := by omega
  have haddress : xs.length + k + 1 - 1 - (dataCells xs).length =
      (codeCells xs ++ List.replicate k (Cell.value 0)).length := by
    rw [List.length_append, List.length_replicate, length_eq xs]
    omega
  rw [h.memory (by omega), hfree, hleft, List.replicate_succ', haddress]
  simp

/-- One insertion that succeeds adds its cell to those that the image holds. -/
theorem of_put (h : image.HoldsAll n xs) (hp : image.put x = .ok image') :
    image'.HoldsAll n (xs ++ [x]) := by
  have hcode := h.length_code
  have hdata := h.length_data
  cases x with
  | code cell =>
    have hcodes : codeCells (xs ++ [.code cell]) = codeCells xs ++ [cell] := codeCells_append ..
    have hdatas : dataCells (xs ++ [.code cell]) = dataCells xs := by
      rw [dataCells_append]
      exact List.append_nil _
    rw [h.put_code] at hp
    split at hp
    · cases hp
    next hfull =>
      cases hp
      refine ⟨h.size, ?_, ?_, ?_, ?_, ?_, ?_, h.symbols⟩
      · simpa using h.length_memory
      · simp [hcodes, h.codeCursor]
      · rw [hdatas, ← h.dataCursor]
      · rw [hcodes, List.length_append, List.length_singleton]
        omega
      · rw [hdatas]
        exact hdata
      · intro hlen
        rw [List.length_append, List.length_singleton] at hlen
        rw [hcodes, hdatas, List.length_append, List.length_singleton]
        exact h.memory_set_code hlen cell
  | data cell =>
    have hcodes : codeCells (xs ++ [.data cell]) = codeCells xs := by
      rw [codeCells_append]
      exact List.append_nil _
    have hdatas : dataCells (xs ++ [.data cell]) = dataCells xs ++ [cell] := dataCells_append ..
    rw [h.put_data] at hp
    split at hp
    · cases hp
    next hfull =>
      cases hp
      refine ⟨h.size, ?_, ?_, ?_, ?_, ?_, ?_, h.symbols⟩
      · simpa using h.length_memory
      · rw [hcodes, ← h.codeCursor]
      · change image.dataCursor - 1 = _
        rw [hdatas, List.length_append, List.length_singleton, h.dataCursor]
        omega
      · rw [hcodes]
        exact hcode
      · rw [hdatas, List.length_append, List.length_singleton]
        omega
      · intro hlen
        rw [List.length_append, List.length_singleton] at hlen
        rw [hcodes, hdatas, List.length_append, List.length_singleton]
        exact h.memory_set_data hlen cell

theorem putAll (h : image.HoldsAll n xs) (ys : List Insertion) :
    (image.putAll ys).HoldsAll n (xs ++ image.accepted ys) := by
  induction ys generalizing image xs with
  | nil => rwa [accepted, List.append_nil]
  | cons y ys ih =>
    rw [Image.putAll, accepted]
    cases hp : image.put y with
    | error fault => exact ih h
    | ok image' =>
      have hnext := ih (h.of_put hp)
      rwa [List.append_assoc] at hnext

/-- At each end as many cells are accepted as the memory has, whatever is put at the other. -/
theorem cells_accepted (h : image.HoldsAll n xs) (ys : List Insertion) :
    codeCells (image.accepted ys) = (codeCells ys).take (n - (codeCells xs).length) ∧
      dataCells (image.accepted ys) = (dataCells ys).take (n - (dataCells xs).length) := by
  induction ys generalizing image xs with
  | nil => simp [accepted, codeCells, dataCells]
  | cons y ys ih =>
    have hcode := h.length_code
    have hdata := h.length_data
    rw [accepted]
    cases y with
    | code cell =>
      rw [codeCells_code, dataCells_code]
      by_cases hfull : (codeCells xs).length = n
      · rw [h.put_code, if_pos hfull]
        obtain ⟨hcodes, hdatas⟩ := ih h
        rw [hfull, Nat.sub_self, List.take_zero] at hcodes ⊢
        exact ⟨hcodes, hdatas⟩
      · have hput := h.put_code cell
        rw [if_neg hfull] at hput
        rw [hput]
        obtain ⟨hcodes, hdatas⟩ := ih (h.of_put hput)
        rw [codeCells_append, List.length_append] at hcodes
        rw [dataCells_append, dataCells_code] at hdatas
        have hleft : n - (codeCells xs).length = n - ((codeCells xs).length + 1) + 1 := by omega
        rw [hleft, List.take_succ_cons, codeCells_code, dataCells_code]
        exact ⟨congrArg (cell :: ·) hcodes, by simpa [dataCells] using hdatas⟩
    | data cell =>
      rw [codeCells_data, dataCells_data]
      by_cases hfull : (dataCells xs).length = n
      · rw [h.put_data, if_pos hfull]
        obtain ⟨hcodes, hdatas⟩ := ih h
        rw [hfull, Nat.sub_self, List.take_zero] at hdatas ⊢
        exact ⟨hcodes, hdatas⟩
      · have hput := h.put_data cell
        rw [if_neg hfull] at hput
        rw [hput]
        obtain ⟨hcodes, hdatas⟩ := ih (h.of_put hput)
        rw [codeCells_append, codeCells_data] at hcodes
        rw [dataCells_append, List.length_append] at hdatas
        have hleft : n - (dataCells xs).length = n - ((dataCells xs).length + 1) + 1 := by omega
        rw [hleft, List.take_succ_cons, codeCells_data, dataCells_data]
        exact ⟨by simpa [codeCells] using hcodes, congrArg (cell :: ·) hdatas⟩

theorem checkOverlap_iff (h : image.HoldsAll n xs) :
    image.checkOverlap = .ok () ↔ xs.length ≤ n := by
  rw [checkOverlap_eq_ok_iff, h.codeCursor, h.dataCursor, length_eq xs]
  omega

theorem eq_of_cells (h : image.HoldsAll n xs) (h' : image'.HoldsAll n ys)
    (hcode : codeCells ys = codeCells xs) (hdata : dataCells ys = dataCells xs)
    (hlen : xs.length ≤ n) : image' = image := by
  have hlength : ys.length = xs.length := by rw [length_eq, length_eq xs, hcode, hdata]
  have hmemory : image'.memory = image.memory := by
    rw [h.memory hlen, h'.memory (hlength ▸ hlen), hcode, hdata, hlength]
  have hcursors : image'.codeCursor = image.codeCursor ∧ image'.dataCursor = image.dataCursor := by
    rw [h.codeCursor, h'.codeCursor, h.dataCursor, h'.dataCursor, hcode, hdata]
    exact ⟨rfl, rfl⟩
  have hsize := h'.size.trans h.size.symm
  have hsymbols := h'.symbols.trans h.symbols.symm
  cases image
  cases image'
  simp_all

theorem bounded (h : image.HoldsAll n xs) : image.Bounded n where
  length_memory := h.length_memory
  codeCursor := by
    have hle := h.length_code
    rw [h.codeCursor]
    omega
  dataCursor := by
    have hle := h.length_data
    rw [h.dataCursor]
    omega
  code cell := by
    have hle := h.length_code
    rw [h.put_code, h.codeCursor]
    by_cases hfull : (codeCells xs).length = n
    · exact .inl ⟨congrArg Nat.cast hfull, if_pos hfull⟩
    · exact .inr ⟨(codeCells xs).length, by omega, rfl, if_neg hfull⟩
  data cell := by
    have hle := h.length_data
    rw [h.put_data, h.dataCursor]
    by_cases hfull : (dataCells xs).length = n
    · exact .inl ⟨by omega, if_pos hfull⟩
    · refine .inr ⟨n - 1 - (dataCells xs).length, by omega, by omega, ?_⟩
      rw [if_neg hfull]
      congr 2
      omega

end HoldsAll

/--
Whatever is put into an image of any size, its cursors stay in bounds. The overlap check passes
exactly if no more insertions have succeeded than there are cells. All the cells are there then,
however code and data were interleaved; once the check fails, it fails after all further insertions.
-/
theorem bounded_and_overlap_of_putAll (n : Nat) (xs : List Insertion) :
    let image := (blank n).putAll xs
    let put := (blank n).accepted xs
    image.Bounded n ∧
    (image.checkOverlap = .ok () ↔ put.length ≤ n) ∧
    (image.checkOverlap = .ok () → image.memory =
      codeCells put ++ List.replicate (n - put.length) (.value 0) ++ (dataCells put).reverse) ∧
    (image.checkOverlap = .ok () → ∀ ys, codeCells ys = codeCells xs →
      dataCells ys = dataCells xs → (blank n).putAll ys = image) ∧
    (image.checkOverlap ≠ .ok () → ∀ ys, (image.putAll ys).checkOverlap ≠ .ok ()) := by
  intro image put
  have h : image.HoldsAll n put := (holdsAll_blank n).putAll xs
  refine ⟨h.bounded, h.checkOverlap_iff, ?_, ?_, ?_⟩
  · intro ho
    exact h.memory (h.checkOverlap_iff.mp ho)
  · intro ho ys hcode hdata
    obtain ⟨hcodes, hdatas⟩ := (holdsAll_blank n).cells_accepted xs
    obtain ⟨hcodes', hdatas'⟩ := (holdsAll_blank n).cells_accepted ys
    rw [hcode, ← hcodes] at hcodes'
    rw [hdata, ← hdatas] at hdatas'
    exact h.eq_of_cells ((holdsAll_blank n).putAll ys) hcodes' hdatas' (h.checkOverlap_iff.mp ho)
  · intro ho ys ho'
    have hlen := (h.putAll ys).checkOverlap_iff.mp ho'
    rw [List.length_append] at hlen
    exact ho (h.checkOverlap_iff.mpr (Nat.le_of_add_right_le hlen))

/-- Two orders of three cells that fit, and a fourth cell that is one too many. -/
theorem bounded_and_overlap_of_putAll_three :
    let xs : List Insertion := [.code (.value 7), .data (.value 5), .code (.value 8)]
    let ys : List Insertion := [.data (.value 5), .code (.value 7), .code (.value 8)]
    let image := (blank 3).putAll xs
    let closed := (blank 3).putAll (.data (.value 1) :: xs)
    image.Bounded 3 ∧ image.checkOverlap = .ok () ∧
      image.memory = [.value 7, .value 8, .value 5] ∧ (blank 3).putAll ys = image ∧
      closed.checkOverlap ≠ .ok () ∧ ∀ ys, (closed.putAll ys).checkOverlap ≠ .ok () := by
  intro xs ys image closed
  obtain ⟨hbounded, hiff, hmemory, horder, -⟩ := bounded_and_overlap_of_putAll 3 xs
  obtain ⟨-, hiff', -, -, hclosed⟩ :=
    bounded_and_overlap_of_putAll 3 (.data (.value 1) :: xs)
  have ho : image.checkOverlap = .ok () := hiff.mpr (by decide)
  have ho' : closed.checkOverlap ≠ .ok () := mt hiff'.mp (by decide)
  exact ⟨hbounded, ho, hmemory ho, horder ho ys rfl rfl, ho', hclosed ho'⟩

end Image

end Nibble
