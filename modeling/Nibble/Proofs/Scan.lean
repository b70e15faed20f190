import Nibble.Proofs.Layout

/-! # Scanning a source

Lines are fed to the assembler one by one. They all pass exactly if each of them can be read and
there is room for all of their items, and then the image is that of the layout of the items.
-/

namespace Nibble

open Text

namespace Layout

def addAll (l : Layout) (items : List (Option Int × Item)) : Layout :=
  items.foldl (fun l x => l.add x.1 x.2) l

theorem addAll_cons (l : Layout) (x : Option Int × Item) (items : List (Option Int × Item)) :
    l.addAll (x :: items) = (l.add x.1 x.2).addAll items := rfl

def HasRoom : Layout → List (Option Int × Item) → Prop
  | _, [] => True
  | l, (line, item) :: items => l.Room item ∧ (l.add line item).HasRoom items

variable {l : Layout} {item : Item} {items : List (Option Int × Item)} {line : Option Int}

theorem length_code_le_add : l.code.length ≤ (l.add line item).code.length := by
  cases item <;> simp [add]

theorem length_data_le_add : l.data.length ≤ (l.add line item).data.length := by
  cases item <;> simp [add]

theorem length_le_addAll (l : Layout) (items : List (Option Int × Item)) :
    l.code.length ≤ (l.addAll items).code.length ∧
      l.data.length ≤ (l.addAll items).data.length := by
  induction items generalizing l with
  | nil => exact ⟨Nat.le_refl _, Nat.le_refl _⟩
  | cons x items ih =>
    obtain ⟨hc, hd⟩ := ih (l.add x.1 x.2)
    rw [addAll_cons]
    exact ⟨Nat.le_trans length_code_le_add hc, Nat.le_trans length_data_le_add hd⟩

end Layout

namespace Source

variable {raw : List Char} {line : Option Int} {rest : List (Option Int × List Char)}

theorem statements_cons_of_none (h : statement? raw = none) :
    statements ((line, raw) :: rest) = statements rest :=
  List.filterMap_cons_none h

theorem statements_cons_of_some {s : Statement} (h : statement? raw = some s) :
    statements ((line, raw) :: rest) = s :: statements rest :=
  List.filterMap_cons_some h

theorem items_cons_of_none (h : item? raw = none) : items ((line, raw) :: rest) = items rest := by
  rw [items, List.filterMap_cons_none (by rw [h]; rfl)]
  rfl

theorem items_cons_of_some {item : Item} (h : item? raw = some item) :
    items ((line, raw) :: rest) = (line, item) :: items rest := by
  rw [items, List.filterMap_cons_some (by rw [h]; rfl)]
  rfl

end Source

namespace Assembler

open Source

/-- Feeds lines to the assembler up to the first that fails. -/
def feed (a : Assembler) : List (Option Int × List Char) → Result Failure
  | [] => (a, .ok ())
  | (line, raw) :: rest =>
    match a.addLine raw line with
    | (a, .ok ()) => a.feed rest
    | (a, .error failure) => (a, .error failure)

variable {a a' b : Assembler} {l : Layout} {raw : List Char} {line : Option Int} {item : Item}
  {lines : List (Option Int × List Char)}

theorem file_addLine (a : Assembler) (raw : List Char) (line : Option Int) :
    (a.addLine raw line).1.file = a.file := by
  unfold addLine
  split
  · rfl
  · rfl
  · exact file_enter ..

theorem addLine_of_blank (h : Statement.parse raw = .ok none) :
    a.addLine raw line = (a, .ok ()) := by
  rw [addLine, h]

theorem addLine_of_statement {s : Statement} (h : statement? raw = some s) :
    a.addLine raw line = a.enter (String.ofList (trim raw)) line s := by
  rw [addLine, statement?_eq_some_iff.mp h]

theorem item?_of_blank (h : Statement.parse raw = .ok none) : item? raw = none := by
  rw [item?, statement?, h]
  rfl

theorem Holds.addLine (h : a.Holds l) (line : Option Int) (hi : item? raw = some item)
    (hr : l.Room item) :
    ∃ a', a.addLine raw line = (a', .ok ()) ∧ a'.Holds (l.add line item) := by
  obtain ⟨s, hs, hsi⟩ := Option.bind_eq_some_iff.mp hi
  rw [addLine_of_statement hs]
  exact h.enter hsi (small_of_item? hi) hr

/-- A line that passes is blank, or its item is added where there has been room for it. -/
theorem Holds.cases_addLine (h : a.Holds l) (ha : a.addLine raw line = (a', .ok ())) :
    (Statement.parse raw = .ok none ∧ a' = a) ∨
      ∃ item, item? raw = some item ∧ l.Room item ∧ a'.Holds (l.add line item) := by
  cases hp : Statement.parse raw with
  | error fault =>
    rw [Assembler.addLine, hp] at ha
    cases ha
  | ok s? =>
    cases s? with
    | none =>
      rw [addLine_of_blank hp] at ha
      cases ha
      exact .inl ⟨rfl, rfl⟩
    | some s =>
      have hs := statement?_eq_some_iff.mpr hp
      rw [addLine_of_statement hs] at ha
      obtain ⟨item, hsi, hr⟩ := h.room_of_enter ha
      have hi : item? raw = some item := by rw [item?, hs, Option.bind_some, hsi]
      obtain ⟨b, hb, hbl⟩ := h.addLine line hi hr
      rw [addLine_of_statement hs] at hb
      obtain rfl : a' = b := congrArg Prod.fst (ha.symm.trans hb)
      exact .inr ⟨item, hi, hr, hbl⟩

/-- Readable lines with room for their items pass. -/
theorem Holds.feed (h : a.Holds l) (hread : ∀ x ∈ lines, Readable x.2)
    (hr : l.HasRoom (items lines)) :
    ∃ a', a.feed lines = (a', .ok ()) ∧ a'.Holds (l.addAll (items lines)) := by
  induction lines generalizing a l with
  | nil => exact ⟨a, rfl, h⟩
  | cons x lines ih =>
    obtain ⟨line, raw⟩ := x
    obtain ⟨hraw, hread⟩ := List.forall_mem_cons.mp hread
    rw [Assembler.feed]
    rcases readable_iff.mp hraw with hp | ⟨s, item, hs, hsi⟩
    · rw [addLine_of_blank hp]
      rw [items_cons_of_none (item?_of_blank hp)] at hr ⊢
      exact ih h hread hr
    · have hi : item? raw = some item := by rw [item?, hs, Option.bind_some, hsi]
      rw [items_cons_of_some hi] at hr ⊢
      obtain ⟨a', ha', h'⟩ := h.addLine line hi hr.1
      rw [ha']
      exact ih h' hread hr.2

theorem Holds.room_of_feed (h : a.Holds l) (ha : a.feed lines = (a', .ok ())) :
    (∀ x ∈ lines, Readable x.2) ∧ l.HasRoom (items lines) := by
  induction lines generalizing a l with
  | nil => exact ⟨by simp, trivial⟩
  | cons x lines ih =>
    obtain ⟨line, raw⟩ := x
    rw [Assembler.feed] at ha
    split at ha
    next b hb =>
      rcases h.cases_addLine hb with ⟨hp, rfl⟩ | ⟨item, hi, hr, hbl⟩
      · obtain ⟨hread, hroom⟩ := ih h ha
        rw [items_cons_of_none (item?_of_blank hp)]
        exact ⟨List.forall_mem_cons.mpr ⟨readable_iff.mpr (.inl hp), hread⟩, hroom⟩
      · obtain ⟨hread, hroom⟩ := ih hbl ha
        rw [items_cons_of_some hi]
        have hraw : Readable raw :=
          readable_iff.mpr (.inr ((Option.bind_eq_some_iff.mp hi).imp fun s hs => ⟨item, hs⟩))
        exact ⟨List.forall_mem_cons.mpr ⟨hraw, hread⟩, hr, hroom⟩
    next => cases ha

theorem file_feed (a : Assembler) (lines : List (Option Int × List Char)) :
    (a.feed lines).1.file = a.file := by
  induction lines generalizing a with
  | nil => rfl
  | cons x lines ih =>
    have hfile := a.file_addLine x.2 x.1
    rw [Assembler.feed]
    split
    next b hb =>
      rw [hb] at hfile
      exact (ih b).trans hfile
    next b failure hb =>
      rw [hb] at hfile
      exact hfile

theorem Holds.of_feed (h : a.Holds l) (ha : a.feed lines = (a', .ok ())) :
    a'.Holds (l.addAll (items lines)) ∧ a'.file = a.file := by
  obtain ⟨hread, hr⟩ := h.room_of_feed ha
  obtain ⟨b, hb, hbl⟩ := h.feed hread hr
  obtain rfl : a' = b := congrArg Prod.fst (ha.symm.trans hb)
  have hfile := a.file_feed lines
  rw [hb] at hfile
  exact ⟨hbl, hfile⟩

theorem addLines_eq_ok_iff {n : Int} {raws : List (List Char)} :
    a.addLines n raws = (a', .ok ()) ↔ a.feed (numbered n raws) = (a', .ok ()) := by
  induction raws generalizing a n with
  | nil => exact Iff.rfl
  | cons raw raws ih =>
    rw [addLines, numbered, Assembler.feed]
    rcases a.addLine (trimEnd (· = '\r') raw) (some n) with ⟨b, failure | ⟨⟩⟩
    · simp
    · exact ih

theorem assemble_of_addLines {text : String}
    (h : a.addLines 1 (Text.lines text.toList) = (b, .ok ())) :
    (a.assemble text).2 = b.resolve.2.mapError (Reference.undefined b.file) := by
  simp only [assemble, h, resolve]
  cases b.image.resolve <;> rfl

/-- A text is assembled if its lines pass and every symbol is bound. -/
theorem assemble_eq_ok_iff {text : String} :
    a.assemble text = (a', .ok ()) ↔
      ∃ b image, b.image.resolve = .ok image ∧ a.feed (ofText text) = (b, .ok ()) ∧
        a' = { b with image } := by
  have hfeed : ∀ b, a.addLines 1 (Text.lines text.toList) = (b, .ok ()) ↔
      a.feed (ofText text) = (b, .ok ()) := fun _ => addLines_eq_ok_iff
  simp only [assemble, ← hfeed]
  split
  next h => simp [h]
  next b h =>
    simp only [h, Prod.mk.injEq, and_true, resolve]
    cases hr : b.image.resolve with
    | error r => simp [hr]
    | ok image => simp [hr, eq_comm]

end Assembler

end Nibble
