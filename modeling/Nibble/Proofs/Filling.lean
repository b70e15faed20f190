import Nibble.Assembler
import Nibble.Proofs.Outcome

/-! # Filling images

What the operations on an image do when they succeed, when they fail, and what the two checks that
follow every statement require.
-/

namespace Nibble

theorem setEntry?_append {α : Type} (before after : List α) (old new : α) :
    setEntry? (before ++ old :: after) before.length new = some (before ++ new :: after) := by
  have hlt : before.length < (before ++ old :: after).length := by simp
  simp only [position?_natCast hlt, setEntry?]
  simp

namespace Image

theorem insertCode_eq {image : Image} {before after : List Cell} {old : Cell}
    (hm : image.memory = before ++ old :: after) (hc : image.codeCursor = before.length)
    (hs : image.codeCursor < image.size) (cell : Cell) :
    image.insertCode cell = .ok { image with
      memory := before ++ cell :: after, codeCursor := image.codeCursor + 1 } := by
  simp only [insertCode, setCell, if_neg (Int.not_le.mpr hs)]
  rw [hm, hc, setEntry?_append]
  rfl

theorem insertData_eq {image : Image} {before after : List Cell} {old : Cell}
    (hm : image.memory = before ++ old :: after) (hc : image.dataCursor = before.length)
    (cell : Cell) :
    image.insertData cell = .ok { image with
      memory := before ++ cell :: after, dataCursor := image.dataCursor - 1 } := by
  have hs : ¬ image.dataCursor < 0 := by omega
  simp only [insertData, setCell, if_neg hs]
  rw [hm, hc, setEntry?_append]
  rfl

theorem checkOverlap_eq_ok_iff {image : Image} :
    image.checkOverlap = .ok () ↔ image.codeCursor ≤ image.dataCursor + 1 := by
  unfold checkOverlap
  split
  · simp; omega
  · simp; omega

theorem cellOver?_eq_none_iff {limit : Int} {address : Nat} {cells : List Cell} :
    cellOver? limit address cells = none ↔ ∀ n, .value n ∈ cells → n ≤ limit := by
  induction cells generalizing address with
  | nil => simp [cellOver?]
  | cons cell cells ih =>
    cases cell with
    | symbol r => simp [cellOver?, ih]
    | value n =>
      by_cases h : limit < n
      · simp only [cellOver?, h, if_true, reduceCtorEq, false_iff]
        exact fun hc => absurd (hc n (.head _)) (Int.not_le.mpr h)
      · simp only [cellOver?, h, if_false, ih, List.mem_cons, Cell.value.injEq]
        constructor
        · rintro hc k (rfl | hk)
          · exact Int.not_lt.mp h
          · exact hc k hk
        · exact fun hc k hk => hc k (.inr hk)

theorem checkRange_eq_ok_iff {image : Image} {limit : Int} :
    image.checkRange limit = .ok () ↔
      (∀ n, .value n ∈ image.memory → n ≤ limit) ∧
        ∀ b ∈ image.symbols.bindings, b.2 ≤ limit := by
  unfold checkRange
  split
  next h =>
    have hn := mt cellOver?_eq_none_iff.mpr (by simp [h] : cellOver? limit 0 image.memory ≠ none)
    simp [hn]
  next h =>
    rw [cellOver?_eq_none_iff] at h
    split
    next hb =>
      have hm := List.mem_of_find?_eq_some hb
      have hlt := List.find?_some hb
      simp only [reduceCtorEq, false_iff, not_and]
      exact fun _ hall => absurd (hall _ hm) (by simpa using hlt)
    next hb =>
      simp only [List.find?_eq_none, decide_eq_true_eq, Int.not_lt] at hb
      simp only [true_iff]
      exact ⟨h, hb⟩

theorem checkOverlap_eq_error {image : Image} {fault : Fault}
    (h : image.checkOverlap = .error fault) : ∃ c, fault = .cause c := by
  unfold checkOverlap at h
  split at h <;> cases h
  exact ⟨_, rfl⟩

theorem checkRange_eq_error {image : Image} {limit : Int} {fault : Fault}
    (h : image.checkRange limit = .error fault) : ∃ c, fault = .cause c := by
  unfold checkRange at h
  split at h
  · cases h
    exact ⟨_, rfl⟩
  · split at h <;> cases h
    exact ⟨_, rfl⟩

theorem insertCode_eq_ok {image image' : Image} {cell : Cell}
    (h : image.insertCode cell = .ok image') :
    image'.codeCursor = image.codeCursor + 1 ∧ image'.dataCursor = image.dataCursor := by
  unfold insertCode at h
  split at h
  · cases h
  · obtain ⟨filled, hs, h⟩ := bind_eq_ok_iff.mp h
    cases h
    unfold setCell at hs
    split at hs
    · cases hs; exact ⟨rfl, rfl⟩
    · cases hs

theorem insertCells_eq_ok {image image' : Image} {cells : List Cell}
    (h : image.insertCells cells = (image', .ok ())) :
    image'.codeCursor = image.codeCursor + cells.length ∧
      image'.dataCursor = image.dataCursor := by
  induction cells generalizing image with
  | nil => cases h; simp
  | cons cell cells ih =>
    unfold insertCells at h
    split at h
    next filled hc =>
      obtain ⟨h₁, h₂⟩ := insertCode_eq_ok hc
      obtain ⟨h₃, h₄⟩ := ih h
      rw [List.length_cons]
      omega
    next => cases h

theorem insertData_eq_ok {image image' : Image} {cell : Cell}
    (h : image.insertData cell = .ok image') :
    image'.codeCursor = image.codeCursor ∧ image'.dataCursor = image.dataCursor - 1 := by
  unfold insertData at h
  split at h
  · cases h
  · obtain ⟨filled, hs, h⟩ := bind_eq_ok_iff.mp h
    cases h
    unfold setCell at hs
    split at hs
    · cases hs; exact ⟨rfl, rfl⟩
    · cases hs

theorem symbols_insertCode {image image' : Image} {cell : Cell}
    (h : image.insertCode cell = .ok image') : image'.symbols = image.symbols := by
  unfold insertCode at h
  split at h
  · cases h
  · obtain ⟨filled, hs, h⟩ := bind_eq_ok_iff.mp h
    have hsymbols := symbols_setCell hs
    cases h
    exact hsymbols

theorem symbols_insertData {image image' : Image} {cell : Cell}
    (h : image.insertData cell = .ok image') : image'.symbols = image.symbols := by
  unfold insertData at h
  split at h
  · cases h
  · obtain ⟨filled, hs, h⟩ := bind_eq_ok_iff.mp h
    have hsymbols := symbols_setCell hs
    cases h
    exact hsymbols

/-- Putting cells into an image binds nothing, even if not all of them fit. -/
theorem symbols_insertCells (image : Image) (cells : List Cell) :
    (image.insertCells cells).1.symbols = image.symbols := by
  induction cells generalizing image with
  | nil => rfl
  | cons cell cells ih =>
    unfold insertCells
    split
    next filled hf => exact (ih filled).trans (symbols_insertCode hf)
    next => rfl

/-- The memory has the size of the image, and neither cursor starts beyond the other's end. -/
structure Framed (image : Image) : Prop where
  length_memory : image.memory.length = image.size
  codeCursor : 0 ≤ image.codeCursor
  dataCursor : image.dataCursor < image.size

variable {image image' : Image} {cells : List Cell} {fault : Fault}

theorem Framed.setCell (h : image.Framed) {address : Int} (h0 : 0 ≤ address)
    (hlt : address < image.size) (cell : Cell) :
    image.setCell address cell =
      .ok { image with memory := image.memory.set address.toNat cell } := by
  obtain ⟨k, rfl⟩ := Int.eq_ofNat_of_zero_le h0
  have hk : k < image.memory.length := by
    have := h.length_memory
    omega
  simp [Image.setCell, setEntry?, position?_natCast hk]

theorem Framed.insertCode (h : image.Framed) (cell : Cell) :
    image.insertCode cell =
      if image.size ≤ image.codeCursor then .error (.cause .codeFull)
      else .ok { image with
        memory := image.memory.set image.codeCursor.toNat cell
        codeCursor := image.codeCursor + 1 } := by
  unfold Image.insertCode
  split
  · rfl
  next hlt =>
    rw [h.setCell h.codeCursor (Int.not_le.mp hlt)]
    rfl

theorem Framed.insertData (h : image.Framed) (cell : Cell) :
    image.insertData cell =
      if image.dataCursor < 0 then .error (.cause .dataFull)
      else .ok { image with
        memory := image.memory.set image.dataCursor.toNat cell
        dataCursor := image.dataCursor - 1 } := by
  unfold Image.insertData
  split
  · rfl
  next h0 =>
    rw [h.setCell (Int.not_lt.mp h0) h.dataCursor]
    rfl

theorem Framed.insertCells_eq_error (h : image.Framed)
    (he : image.insertCells cells = (image', .error fault)) :
    fault = .cause .codeFull ∧ image.size ≤ image'.codeCursor := by
  induction cells generalizing image with
  | nil => cases he
  | cons cell cells ih =>
    rw [insertCells, h.insertCode] at he
    split at he
    next filled hf =>
      split at hf
      · cases hf
      · cases hf
        have hnext : Framed { image with
            memory := image.memory.set image.codeCursor.toNat cell
            codeCursor := image.codeCursor + 1 } :=
          ⟨by simpa using h.length_memory, Int.le_add_one h.codeCursor, h.dataCursor⟩
        have hfull := ih hnext he
        exact hfull
    next hf =>
      split at hf
      next hfull =>
        cases hf
        cases he
        exact ⟨rfl, hfull⟩
      · cases hf

theorem Framed.insertData_eq_error {cell : Cell} (h : image.Framed)
    (he : image.insertData cell = .error fault) : fault = .cause .dataFull := by
  rw [h.insertData] at he
  split at he
  · cases he
    rfl
  · cases he

end Image

theorem Assembler.record_eq_ok_iff {a a' : Assembler} {row : Row} :
    a.record row = (a', .ok ()) ↔ a.image.checkOverlap = .ok () ∧
      a.image.checkRange wordLimit = .ok () ∧ a' = { a with rows := a.rows.push row } := by
  have hc : (do a.image.checkOverlap; a.image.checkRange wordLimit) = .ok () ↔
      a.image.checkOverlap = .ok () ∧ a.image.checkRange wordLimit = .ok () := by
    constructor
    · intro h
      obtain ⟨⟨⟩, ho, hr⟩ := bind_eq_ok_iff.mp h
      exact ⟨ho, hr⟩
    · rintro ⟨ho, hr⟩
      exact bind_eq_ok_iff.mpr ⟨(), ho, hr⟩
  unfold record
  split
  next h =>
    obtain ⟨ho, hr⟩ := hc.mp h
    simp [ho, hr, eq_comm]
  next fault h =>
    simp only [Prod.mk.injEq, reduceCtorEq, and_false, false_iff]
    rintro ⟨ho, hr, -⟩
    rw [hc.mpr ⟨ho, hr⟩] at h
    cases h

theorem Assembler.record_eq_error {a a' : Assembler} {row : Row} {failure : Failure}
    (h : a.record row = (a', .error failure)) :
    a' = a ∧ ∃ c, failure = .diagnostic ⟨c, .unknown⟩ := by
  unfold record at h
  split at h
  · cases h
  next fault hf =>
    cases h
    have hcause : ∃ c, fault = .cause c := by
      rcases bind_eq_error_iff.mp hf with ho | ⟨_, -, hr⟩
      · exact Image.checkOverlap_eq_error ho
      · exact Image.checkRange_eq_error hr
    obtain ⟨c, rfl⟩ := hcause
    exact ⟨rfl, c, rfl⟩

end Nibble
