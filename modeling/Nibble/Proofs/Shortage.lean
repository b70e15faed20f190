import Nibble.Proofs.Catalog
import Nibble.Proofs.FirstFailure
import Nibble.Proofs.Grammar

/-! # Shortages

What a line is refused for when there is no room for it. Code is first of all put into the cells
that are left above it, and only then compared with the data, so which of two faults is found
depends on where the cursors stand. A cell that is too large is never found: only the address of a
register that is printed could be one, and where its cells fit it is a word.
-/

namespace Nibble

open Text

def Failure.unplaced (c : Cause) : Failure :=
  .diagnostic ⟨c, .unknown⟩

/-- How an operation that needs room ends: it passes where what it puts fits, it fails for a cause
of its own where the memory is full, and in every other case the sections overlap. -/
structure EndsBy (ending : Except Failure Unit) (fits full : Prop) (c : Cause) : Prop where
  passes : ending = .ok () ↔ fits
  fails : ending = .error (.unplaced c) ↔ full
  overlaps : ending = .error (.unplaced .overlap) ↔ ¬ fits ∧ ¬ full

theorem EndsBy.of_eq {ending : Except Failure Unit} {fits full : Prop} [Decidable fits]
    [Decidable full] {c : Cause} (h : ending = if full then .error (.unplaced c)
      else if fits then .ok () else .error (.unplaced .overlap))
    (hc : c ≠ .overlap) (hfull : full → ¬ fits) : EndsBy ending fits full c := by
  subst h
  by_cases hf : full
  · rw [if_pos hf]
    constructor <;> simp [hf, hfull hf, hc, Failure.unplaced]
  · rw [if_neg hf]
    by_cases hfit : fits
    · constructor <;> simp [hf, hfit]
    · constructor <;> simp [hf, hfit, hc.symm, Failure.unplaced]

theorem Keyed.find?_insert_of_forall {κ α : Type} [DecidableEq κ] {entries : List (κ × α)}
    {p : κ × α → Bool} {key : κ} {value : α} (hp : p (key, value))
    (h : ∀ entry ∈ entries, p entry = false) :
    (insert key value entries).find? p = some (key, value) := by
  have hsome : ((insert key value entries).find? p).isSome :=
    List.find?_isSome.mpr ⟨_, mem_insert_self entries key value, hp⟩
  obtain ⟨entry, hfind⟩ := Option.isSome_iff_exists.mp hsome
  rcases mem_of_mem_insert (List.mem_of_find?_eq_some hfind) with rfl | hmem
  · exact hfind
  · have htrue := List.find?_some hfind
    rw [h entry hmem] at htrue
    cases htrue

theorem Statement.placed_ne_cellTooLarge {raw : List Char} {fault : Fault} {p : Place}
    {d : Diagnostic} (h : parse raw = .error fault) (hd : fault.placed p = .diagnostic d)
    (address : Nat) (value : Int) : d.cause ≠ .cellTooLarge address value := by
  cases fault with
  | defect => cases hd
  | cause c =>
    cases hd
    have hreading := reading_iff.mpr h
    generalize body raw = s at hreading
    cases hreading <;> nofun

theorem Instruction.FirstRefused.ne_cellTooLarge {mnemonic : String} {tokens : List String}
    {shape : List (List OperandClass)} {c : Cause} (h : FirstRefused mnemonic tokens shape c)
    (address : Nat) (value : Int) : c ≠ .cellTooLarge address value := by
  induction h with
  | here h => cases h <;> nofun
  | there _ _ ih => exact ih

theorem Instruction.placed_ne_cellTooLarge {mnemonic : String} {tokens : List String}
    {lc : Int} {line : Option Int} {fault : Fault} {p : Place} {d : Diagnostic}
    (h : encode mnemonic tokens lc line = .error fault) (hd : fault.placed p = .diagnostic d)
    (address : Nat) (value : Int) : d.cause ≠ .cellTooLarge address value := by
  cases fault with
  | defect => cases hd
  | cause c =>
    cases hd
    cases encode_eq_cause_iff.mp h with
    | operand _ _ hc => exact hc.ne_cellTooLarge address value
    | _ => nofun

namespace Image

theorem Framed.insertCells_snd {image : Image} (h : image.Framed)
    (hle : image.codeCursor ≤ image.size) (cells : List Cell) :
    (image.insertCells cells).2 = if image.size < image.codeCursor + cells.length then
      .error (.cause .codeFull) else .ok () := by
  induction cells generalizing image with
  | nil => simp [insertCells, Int.not_lt.mpr hle]
  | cons cell cells ih =>
    rw [insertCells, h.insertCode, List.length_cons, Int.natCast_succ]
    by_cases hfull : image.size ≤ image.codeCursor
    · rw [if_pos hfull, if_pos (by omega)]
    · rw [if_neg hfull]
      have hnext : Framed { image with
          memory := image.memory.set image.codeCursor.toNat cell
          codeCursor := image.codeCursor + 1 } :=
        ⟨by simpa using h.length_memory, Int.le_add_one h.codeCursor, h.dataCursor⟩
      have hsnd := ih hnext (Int.not_le.mp hfull)
      rwa [Int.add_assoc, Int.add_comm 1] at hsnd

theorem checkOverlap_of_lt {image : Image} (h : image.dataCursor + 1 < image.codeCursor) :
    image.checkOverlap = .error (.cause .overlap) :=
  if_pos (Int.le_sub_one_of_lt h)

end Image

namespace Assembler

open Source

variable {a : Assembler} {l : Layout} {raw : List Char} {line : Option Int}

theorem record_of_overlap (h : a.image.dataCursor + 1 < a.image.codeCursor) (row : Row) :
    (a.record row).2 = .error (.unplaced .overlap) := by
  unfold record
  rw [Image.checkOverlap_of_lt h]
  rfl

theorem record_of_range {c : Cause} (ho : a.image.checkOverlap = .ok ())
    (hr : a.image.checkRange wordLimit = .error (.cause c)) (row : Row) :
    (a.record row).2 = .error (.unplaced c) := by
  have hc : (do a.image.checkOverlap; a.image.checkRange wordLimit) = .error (.cause c) := by
    rw [ho]
    exact hr
  rw [record, hc]
  rfl

/-- The cursors of an image with a layout lie in the memory, and have not passed each other. -/
theorem Holds.cursors (h : a.Holds l) : 0 ≤ a.image.codeCursor ∧
    a.image.codeCursor ≤ a.image.dataCursor + 1 ∧ a.image.dataCursor ≤ wordLimit := by
  have hpacked : a.image.Packed := h.image ▸ h.fits.packed
  exact ⟨hpacked.codeCursor.1, hpacked.apart, hpacked.dataCursor.2⟩

theorem Holds.addLine_instruction (h : a.Holds l) {mnemonic : String} {tokens : List String}
    {cells : List Cell} (hs : statement? raw = some (.instruction mnemonic tokens))
    (he : Instruction.encode mnemonic tokens a.image.codeCursor line = .ok cells) :
    (a.addLine raw line).2 =
      if memorySize < a.image.codeCursor + cells.length then .error (.unplaced .codeFull)
      else if a.image.codeCursor + cells.length ≤ a.image.dataCursor + 1 then .ok ()
      else .error (.unplaced .overlap) := by
  obtain ⟨c, hc, rfl⟩ := Instruction.encode_eq_ok_iff.mp he
  have hframed : a.image.Framed := h.image ▸ Layout.framed h.fits.size
  have hsize : a.image.size = memorySize := by rw [h.image]; rfl
  obtain ⟨-, hapart, hlimit⟩ := h.cursors
  have hle : a.image.codeCursor ≤ a.image.size := by
    rw [hsize]
    unfold memorySize wordLimit at *
    omega
  have hsnd := hframed.insertCells_snd hle (c.cells a.image.codeCursor line)
  rw [hsize, Command.length_cells] at hsnd
  rw [Command.length_cells, addLine_of_statement hs]
  simp only [Assembler.enter, he]
  rcases hi : a.image.insertCells (c.cells a.image.codeCursor line) with ⟨image, fault | ⟨⟩⟩
  · rw [hi] at hsnd
    split at hsnd
    next hfull =>
      cases hsnd
      rw [if_pos hfull]
      rfl
    next => cases hsnd
  · rw [hi] at hsnd
    have hfit : ¬ memorySize < a.image.codeCursor + c.size := by
      intro hfull
      rw [if_pos hfull] at hsnd
      cases hsnd
    rw [if_neg hfit]
    by_cases hroom : a.image.codeCursor + c.size ≤ a.image.dataCursor + 1
    · have hitem : item? raw = some (.command c) := by
        rw [item?, hs, Option.bind_some, Statement.item?, hc, Option.map_some]
      have hr : l.Room (.command c) := by
        simp only [h.image, Layout.image] at hroom
        unfold Layout.Room Layout.size Layout.dataCursor at *
        omega
      obtain ⟨b, hb, -⟩ := h.addLine line hitem hr
      rw [addLine_of_statement hs] at hb
      simp only [Assembler.enter, he, hi] at hb
      rw [if_pos hroom]
      exact congrArg Prod.snd hb
    · obtain ⟨hcode, hdata⟩ := Image.insertCells_eq_ok hi
      rw [Command.length_cells] at hcode
      rw [if_neg hroom]
      apply record_of_overlap
      rw [hcode, hdata]
      exact Int.not_le.mp hroom

theorem Holds.addLine_data (h : a.Holds l) {name : String} {value : Nat}
    (hs : statement? raw = some (.data name value)) :
    (a.addLine raw line).2 =
      if a.image.dataCursor = -1 then .error (.unplaced .dataFull)
      else if a.image.codeCursor ≤ a.image.dataCursor then .ok ()
      else .error (.unplaced .overlap) := by
  have hframed : a.image.Framed := h.image ▸ Layout.framed h.fits.size
  obtain ⟨hstart, hapart, -⟩ := h.cursors
  have hend : a.image.dataCursor < 0 ↔ a.image.dataCursor = -1 := by omega
  by_cases hfull : a.image.dataCursor < 0
  · rw [if_pos (hend.mp hfull), addLine_of_statement hs]
    simp only [Assembler.enter, hframed.insertData, if_pos hfull]
    rfl
  rw [if_neg (mt hend.mpr hfull)]
  split
  next hroom =>
    have hitem : item? raw = some (.data name value) := by
      rw [item?, hs]
      rfl
    have hr : l.Room (.data name value) := by
      simp only [h.image, Layout.image] at hroom
      unfold Layout.Room Layout.size Layout.dataCursor at *
      omega
    obtain ⟨b, hb, -⟩ := h.addLine line hitem hr
    exact congrArg Prod.snd hb
  next hlost =>
    rw [addLine_of_statement hs]
    simp only [Assembler.enter, hframed.insertData, if_neg hfull]
    apply record_of_overlap
    simp only [image_bind, Image.addSymbol]
    omega

theorem Holds.checkRange_addSymbol (h : a.Holds l) (name : String)
    (hstop : a.image.codeCursor = memorySize) :
    (a.image.addSymbol name a.image.codeCursor).checkRange wordLimit =
      .error (.cause (.symbolTooLarge name memorySize)) := by
  have hpacked : a.image.Packed := h.image ▸ h.fits.packed
  have hcells : Image.cellOver? wordLimit 0 a.image.memory = none :=
    Image.cellOver?_eq_none_iff.mpr fun n hn => (hpacked.cells n hn).2
  have hlarge : decide ((wordLimit : Int) < memorySize) = true := by decide
  have hsmall : ∀ b ∈ a.image.symbols.bindings, decide ((wordLimit : Int) < b.2) = false := by
    intro b hb
    simpa using (hpacked.symbols b hb).2
  have hfind : (Keyed.insert name (memorySize : Int) a.image.symbols.bindings).find?
      (fun b => decide ((wordLimit : Int) < b.2)) = some (name, (memorySize : Int)) :=
    Keyed.find?_insert_of_forall hlarge hsmall
  rw [hstop]
  simp only [Image.addSymbol, Image.checkRange, hcells, SymbolTable.insert, hfind]

/-- How a label ends. It is bound before it is found to be too large. -/
theorem Holds.addLine_label (h : a.Holds l) {name : String}
    (hs : statement? raw = some (.label name)) :
    (a.addLine raw line).2 = if a.image.codeCursor ≤ wordLimit then .ok ()
      else .error (.unplaced (.symbolTooLarge name memorySize)) := by
  obtain ⟨-, hapart, hlimit⟩ := h.cursors
  split
  next hroom =>
    have hitem : item? raw = some (.label name) := by
      rw [item?, hs]
      rfl
    have hr : l.Room (.label name) := by
      simp only [h.image, Layout.image] at hroom
      unfold Layout.Room memorySize wordLimit at *
      omega
    obtain ⟨b, hb, -⟩ := h.addLine line hitem hr
    exact congrArg Prod.snd hb
  next hfull =>
    have hstop : a.image.codeCursor = memorySize := by
      unfold memorySize wordLimit at *
      omega
    rw [addLine_of_statement hs]
    have ho : (a.bind name a.image.codeCursor line).image.checkOverlap = .ok () :=
      Image.checkOverlap_eq_ok_iff.mpr hapart
    exact record_of_range ho (h.checkRange_addSymbol name hstop) _

/-- No cell is ever found to be too large. -/
theorem Holds.cause_ne_cellTooLarge (h : a.Holds l) {d : Diagnostic}
    (he : (a.addLine raw line).2 = .error (.diagnostic d)) (address : Nat) (value : Int) :
    d.cause ≠ .cellTooLarge address value := by
  cases hp : Statement.parse raw with
  | error fault =>
    rw [Assembler.addLine, hp] at he
    exact Statement.placed_ne_cellTooLarge hp (Except.error.inj he) address value
  | ok s? =>
    cases s? with
    | none =>
      rw [addLine_of_blank hp] at he
      cases he
    | some s =>
      have hs := statement?_eq_some_iff.mpr hp
      cases s with
      | data name n =>
        rw [h.addLine_data hs] at he
        split at he
        · cases he
          simp
        · split at he <;> cases he
          simp
      | label name =>
        rw [h.addLine_label hs] at he
        split at he <;> cases he
        simp
      | instruction mnemonic tokens =>
        cases hx : Instruction.encode mnemonic tokens a.image.codeCursor line with
        | ok cells =>
          rw [h.addLine_instruction hs hx] at he
          split at he
          · cases he
            simp
          · split at he <;> cases he
            simp
        | error fault =>
          rw [addLine_of_statement hs] at he
          simp only [Assembler.enter, hx] at he
          exact Instruction.placed_ne_cellTooLarge hx (Except.error.inj he) address value

/--
How a line ends after lines that have passed is decided by the cursors. Where the cells of an
instruction are all in the memory they hold words only, so that a text is never refused for a cell
that is too large.
-/
theorem endsBy_of_feed {file : Option String} {lines : List (Option Int × List Char)}
    (hf : (new file).feed lines = (a, .ok ())) :
    (∀ raw line mnemonic tokens cells, statement? raw = some (.instruction mnemonic tokens) →
      Instruction.encode mnemonic tokens a.image.codeCursor line = .ok cells →
      EndsBy (a.addLine raw line).2
        (a.image.codeCursor + cells.length ≤ a.image.dataCursor + 1)
        (memorySize < a.image.codeCursor + cells.length) .codeFull ∧
      (a.image.codeCursor + cells.length ≤ memorySize →
        ∀ n : Int, .value n ∈ cells → n ≤ wordLimit)) ∧
    (∀ raw line name value, statement? raw = some (.data name value) →
      EndsBy (a.addLine raw line).2 (a.image.codeCursor ≤ a.image.dataCursor)
        (a.image.dataCursor = -1) .dataFull) ∧
    (∀ raw line name, statement? raw = some (.label name) →
      ((a.addLine raw line).2 = .ok () ↔ a.image.codeCursor ≤ wordLimit) ∧
      (¬ a.image.codeCursor ≤ wordLimit →
        (a.addLine raw line).2 = .error (.unplaced (.symbolTooLarge name memorySize)))) ∧
    ∀ text d, ((new file).assemble text).2 = .error (.diagnostic d) →
      ∀ address value, d.cause ≠ .cellTooLarge address value := by
  have hl := ((holds_new file).of_feed hf).1
  obtain ⟨hstart, hapart, hlimit⟩ := hl.cursors
  refine ⟨?_, ?_, ?_, ?_⟩
  · intro raw line mnemonic tokens cells hs he
    constructor
    · apply EndsBy.of_eq (hl.addLine_instruction hs he) nofun
      unfold memorySize wordLimit at *
      omega
    · intro hfit n hn
      obtain ⟨c, hc, rfl⟩ := Instruction.encode_eq_ok_iff.mp he
      obtain ⟨k, hk⟩ := Int.eq_ofNat_of_zero_le hstart
      rw [hk] at hn hfit
      rw [Command.length_cells] at hfit
      exact (Command.isNibble_of_mem_cells (Command.small_of_ofTokens hc)
        (Int.ofNat_le.mp hfit) hn).2
  · intro raw line name value hs
    apply EndsBy.of_eq (hl.addLine_data hs) nofun
    omega
  · intro raw line name hs
    rw [hl.addLine_label hs]
    split
    next hroom => exact ⟨iff_of_true rfl hroom, fun hfull => absurd hroom hfull⟩
    next hfull => exact ⟨iff_of_false nofun hfull, fun _ => rfl⟩
  · intro text d h
    rcases assemble_eq_error_iff.mp h with h | ⟨b, r, -, -, hd⟩
    · obtain ⟨before, raw, after, c, d', -, hbefore, he, rfl, -⟩ :=
        addLines_eq_diagnostic (Prod.ext rfl h)
      have hne := (holds_of_addLines hbefore).1.cause_ne_cellTooLarge (congrArg Prod.snd he)
      exact hne
    · cases hd
      nofun

/-- All cells are code: there is room for nothing, and a label has no cell to point to. -/
theorem endsBy_of_feed_full :
    let lines := [(some 1, "prnt %r0".toList), (some 2, "prnt %r0".toList),
      (some 3, "prnt %r0".toList), (some 4, "prnt %r1".toList)]
    ∃ a, (new none).feed lines = (a, .ok ()) ∧ a.image.codeCursor = 16 ∧
      a.image.dataCursor = 15 ∧
      (statement? "halt".toList = some (.instruction "halt" []) ∧
        Instruction.encode "halt" [] a.image.codeCursor (some 5) = .ok [.value 0] ∧
        EndsBy (a.addLine "halt".toList (some 5)).2
          (a.image.codeCursor + [Cell.value 0].length ≤ a.image.dataCursor + 1)
          (memorySize < a.image.codeCursor + [Cell.value 0].length) .codeFull) ∧
      (statement? ".data n, 1".toList = some (.data "n" 1) ∧
        EndsBy (a.addLine ".data n, 1".toList (some 5)).2
          (a.image.codeCursor ≤ a.image.dataCursor) (a.image.dataCursor = -1) .dataFull) ∧
      statement? "end:".toList = some (.label "end") ∧ ¬ a.image.codeCursor ≤ wordLimit ∧
        (a.addLine "end:".toList (some 5)).2 = .error (.unplaced (.symbolTooLarge "end" 16)) := by
  intro lines
  have hf : ((new none).feed lines).2 = .ok () := by rfl
  have hcode : ((new none).feed lines).1.image.codeCursor = 16 := by rfl
  have hdata : ((new none).feed lines).1.image.dataCursor = 15 := by rfl
  have hhalt : statement? "halt".toList = some (.instruction "halt" []) := by rfl
  have hdatum : statement? ".data n, 1".toList = some (.data "n" 1) := by rfl
  have hlabel : statement? "end:".toList = some (.label "end") := by rfl
  have henc : ∀ address line, Instruction.encode "halt" [] address line = .ok [.value 0] := by
    intro address line
    rfl
  obtain ⟨hinstructions, hdirectives, hlabels, -⟩ := endsBy_of_feed (Prod.ext rfl hf)
  have hstop : ¬ ((new none).feed lines).1.image.codeCursor ≤ wordLimit := by
    rw [hcode]
    decide
  exact ⟨_, Prod.ext rfl hf, hcode, hdata,
    ⟨hhalt, henc _ _, (hinstructions _ _ _ _ _ hhalt (henc _ _)).1⟩,
    ⟨hdatum, hdirectives _ _ _ _ hdatum⟩, hlabel, hstop, (hlabels _ _ _ hlabel).2 hstop⟩

end Assembler

end Nibble
