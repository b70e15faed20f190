import Mathlib.Logic.Function.Basic
import Nibble.Proofs.Resolution
import Nibble.Proofs.Scan

/-! # Translation

What the symbols are called and how the lines are numbered makes no difference to the work of the
assembler. Lines that hold the same statements under other names and with other numbers take it to
the same state up to these names and numbers, and where the ones fail the others fail likewise.
-/

namespace Nibble

open List (Forall₂)
open Text

/-- Other names for the symbols, no two of which become one, and other numbers for the lines. -/
structure Translation where
  name : String → String
  name_injective : Function.Injective name
  line : Int → Int

variable {τ : Translation}

/-! ## Translated data -/

def Reference.translate (τ : Translation) (r : Reference) : Reference :=
  ⟨τ.name r.name, r.line.map τ.line⟩

def Cell.translate (τ : Translation) : Cell → Cell
  | value n => value n
  | symbol r => symbol (r.translate τ)

def Operand.translate (τ : Translation) : Operand → Operand
  | register r => register r
  | number n => number n
  | symbol r => symbol (r.translate τ)

def Encoding.translate (τ : Translation) (e : Encoding) : Encoding :=
  { e with rest := e.rest.map (Cell.translate τ) }

def SymbolTable.rename (f : String → String) (t : SymbolTable) : SymbolTable :=
  ⟨t.bindings.map (Prod.map f id)⟩

def Image.translate (τ : Translation) (image : Image) : Image :=
  { image with
    memory := image.memory.map (Cell.translate τ)
    symbols := image.symbols.rename τ.name }

def Place.move (f : Int → Int) (p : Place) : Place :=
  { p with line := p.line.map f }

def Cause.rename (f : String → String) : Cause → Cause
  | symbolTooLarge name value => symbolTooLarge (f name) value
  | undefinedSymbol name => undefinedSymbol (f name)
  | c => c

def Fault.translate (τ : Translation) : Fault → Fault
  | cause c => cause (c.rename τ.name)
  | defect d => defect d

def Failure.translate (τ : Translation) : Failure → Failure
  | diagnostic d => diagnostic ⟨d.cause.rename τ.name, d.place.move τ.line⟩
  | defect d => defect d

def Warning.translate (τ : Translation) (w : Warning) : Warning :=
  { w with name := τ.name w.name, place := w.place.move τ.line }

def Translation.outcome (τ : Translation) {α β : Type} (f : α → β) :
    Except Fault α → Except Fault β
  | .ok a => .ok (f a)
  | .error fault => .error (fault.translate τ)

theorem SymbolTable.rename_id (t : SymbolTable) : t.rename id = t := by
  simp [rename]

theorem Place.move_id (p : Place) : p.move id = p := by
  obtain ⟨file, _ | n⟩ := p <;> rfl

theorem Cause.rename_id (c : Cause) : c.rename id = c := by
  cases c <;> rfl

theorem Cause.kind_rename (f : String → String) (c : Cause) : (c.rename f).kind = c.kind := by
  cases c <;> rfl

theorem Fault.translate_placed (fault : Fault) (p : Place) :
    (fault.placed p).translate τ = (fault.translate τ).placed (p.move τ.line) := by
  cases fault <;> rfl

theorem Reference.translate_undefined (r : Reference) (file : Option String) :
    (r.undefined file).translate τ = (r.translate τ).undefined file := rfl

/-! ## Instructions -/

namespace Operand

variable {op : Operand}

theorem kind_translate : (op.translate τ).kind = op.kind := by
  cases op <;> rfl

theorem expect_translate (accepted : List OperandClass) (mnemonic : String) :
    (op.translate τ).expect accepted mnemonic =
      τ.outcome (translate τ) (op.expect accepted mnemonic) := by
  have hclass : (op.translate τ).toClass = op.toClass := congrArg OperandKind.toClass kind_translate
  rw [expect, expect, hclass, kind_translate]
  by_cases h : op.toClass ∈ accepted
  · rw [if_pos h, if_pos h]
    rfl
  · rw [if_neg h, if_neg h]
    rfl

end Operand

/-- Whether a token is read as the translation of what another one is read as. -/
def Translation.IsToken (τ : Translation) (token token' : String) : Prop :=
  ∀ line, Operand.parse token' (line.map τ.line) =
    τ.outcome (Operand.translate τ) (Operand.parse token line)

/-- A token is read as its own translation, unless it is a symbol that gets another name. -/
theorem Translation.isToken_self {token : String}
    (h : ∀ r, Operand.parse token none = .ok (.symbol r) → τ.name r.name = r.name) :
    τ.IsToken token token := by
  intro line
  rw [Operand.parse, Operand.parse]
  split
  next => rfl
  next hregister =>
    split
    next =>
      split
      next => rfl
      next => split <;> rfl
    next hnumeral =>
      split
      next name hname =>
        have hsame : τ.name (String.ofList name) = String.ofList name := by
          apply h ⟨String.ofList name, none⟩
          rw [Operand.parse, hregister, hnumeral, hname]
        rw [outcome, Operand.translate, Reference.translate, hsame]
      next => rfl

theorem Encoding.cells_translate (e : Encoding) :
    (e.translate τ).cells = e.cells.map (Cell.translate τ) := by
  obtain ⟨_ | n, rest⟩ := e <;> rfl

theorem Format.encode_translate (format : Format) (base : Option Int) (ops : List Operand)
    (address : Int) : format.encode base (ops.map (Operand.translate τ)) address =
      τ.outcome (Encoding.translate τ) (format.encode base ops address) := by
  cases format with
  | plain => rfl
  | register | print | jump =>
    cases ops with
    | nil => rfl
    | cons op ops => cases base <;> cases op <;> rfl
  | move =>
    rcases ops with _ | ⟨op, _ | ⟨op', _ | ⟨_, _⟩⟩⟩
    · rfl
    · cases op <;> rfl
    · cases op <;> cases op' <;> rfl
    · cases op <;> cases op' <;> rfl

namespace Instruction

variable {tokens tokens' : List String}

theorem operands_translate (h : Forall₂ τ.IsToken tokens tokens') (mnemonic : String)
    (line : Option Int) (shape : List (List OperandClass)) :
    operands mnemonic (line.map τ.line) tokens' shape =
      τ.outcome (List.map (Operand.translate τ)) (operands mnemonic line tokens shape) := by
  induction h generalizing shape with
  | nil => rfl
  | @cons token token' tokens tokens' htoken _ ih =>
    cases shape with
    | nil => rfl
    | cons accepted shape =>
      rw [operands, operands, htoken line, ih]
      cases Operand.parse token line with
      | error fault => rfl
      | ok op =>
        change (do let op ← (op.translate τ).expect accepted mnemonic; _) = _
        rw [Operand.expect_translate]
        change _ = τ.outcome _ (do let op ← op.expect accepted mnemonic; _)
        cases op.expect accepted mnemonic with
        | error fault => rfl
        | ok op =>
          change (do let ops ← _; _) = τ.outcome _ (do let ops ← _; _)
          cases operands mnemonic line tokens shape <;> rfl

/-- An instruction is encoded into the same cells up to the names and the numbers of lines. -/
theorem encode_translate (h : Forall₂ τ.IsToken tokens tokens') (mnemonic : String)
    (address : Int) (line : Option Int) :
    encode mnemonic tokens' address (line.map τ.line) =
      τ.outcome (List.map (Cell.translate τ)) (encode mnemonic tokens address line) := by
  unfold encode
  cases find? mnemonic with
  | none => rfl
  | some entry =>
    dsimp only
    rw [← h.length_eq, operands_translate h]
    by_cases hlen : tokens.length ≠ entry.format.shape.length
    · rw [if_pos hlen, if_pos hlen]
      rfl
    · rw [if_neg hlen, if_neg hlen]
      cases operands mnemonic line tokens entry.format.shape with
      | error fault => rfl
      | ok ops =>
        change (do let e ← entry.format.encode _ (ops.map (Operand.translate τ)) address; _) =
          τ.outcome _ (do let e ← entry.format.encode _ ops address; _)
        rw [Format.encode_translate]
        cases entry.format.encode (entry.base.map Int.ofNat) ops address with
        | error fault => rfl
        | ok e => exact congrArg Except.ok e.cells_translate

end Instruction

/-! ## Images -/

namespace Keyed

variable {κ κ' α : Type} [DecidableEq κ] [DecidableEq κ'] {f : κ → κ'}

theorem find?_map (hf : Function.Injective f) (entries : List (κ × α)) (key : κ) :
    find? (entries.map (Prod.map f id)) (f key) = find? entries key := by
  induction entries with
  | nil => rfl
  | cons entry entries ih =>
    obtain ⟨other, value⟩ := entry
    rw [List.map_cons, Prod.map_apply, find?_cons, find?_cons, ih]
    simp only [hf.eq_iff, id_eq]

theorem insert_map (hf : Function.Injective f) (entries : List (κ × α)) (key : κ) (value : α) :
    insert (f key) value (entries.map (Prod.map f id)) =
      (insert key value entries).map (Prod.map f id) := by
  induction entries with
  | nil => rfl
  | cons entry entries ih =>
    obtain ⟨other, old⟩ := entry
    rw [List.map_cons, Prod.map_apply, insert, insert, ih]
    simp only [hf.eq_iff]
    split <;> rfl

end Keyed

namespace SymbolTable

theorem find?_rename (t : SymbolTable) (name : String) :
    (t.rename τ.name).find? (τ.name name) = t.find? name :=
  Keyed.find?_map τ.name_injective t.bindings name

theorem insert_rename (t : SymbolTable) (name : String) (address : Int) :
    (t.rename τ.name).insert (τ.name name) address = (t.insert name address).rename τ.name :=
  congrArg mk (Keyed.insert_map τ.name_injective t.bindings name address)

end SymbolTable

theorem setEntry?_map {α β : Type} {f : α → β} {entries : List α} {address : Int} {value : α}
    {result : Option (List α)} (h : setEntry? entries address value = result) :
    setEntry? (entries.map f) address (f value) = result.map (List.map f) := by
  subst h
  unfold setEntry?
  rw [List.length_map, Option.map_map]
  congr 1
  funext n
  exact List.map_set.symm

namespace Image

variable {image : Image}

theorem setCell_translate (address : Int) (cell : Cell) :
    (image.translate τ).setCell address (cell.translate τ) =
      τ.outcome (translate τ) (image.setCell address cell) := by
  have hmemory : (image.translate τ).memory = image.memory.map (Cell.translate τ) := rfl
  unfold setCell
  cases hset : setEntry? image.memory address cell with
  | none =>
    rw [hmemory, setEntry?_map hset]
    rfl
  | some memory =>
    rw [hmemory, setEntry?_map hset]
    rfl

theorem insertCode_translate (cell : Cell) :
    (image.translate τ).insertCode (cell.translate τ) =
      τ.outcome (translate τ) (image.insertCode cell) := by
  have hcursor : (image.translate τ).codeCursor = image.codeCursor := rfl
  have hsize : (image.translate τ).size = image.size := rfl
  rw [insertCode, insertCode, hcursor, hsize, setCell_translate]
  by_cases hfull : image.size ≤ image.codeCursor
  · rw [if_pos hfull, if_pos hfull]
    rfl
  · rw [if_neg hfull, if_neg hfull]
    cases image.setCell image.codeCursor cell <;> rfl

theorem insertData_translate (cell : Cell) :
    (image.translate τ).insertData (cell.translate τ) =
      τ.outcome (translate τ) (image.insertData cell) := by
  have hcursor : (image.translate τ).dataCursor = image.dataCursor := rfl
  rw [insertData, insertData, hcursor, setCell_translate]
  by_cases hfull : image.dataCursor < 0
  · rw [if_pos hfull, if_pos hfull]
    rfl
  · rw [if_neg hfull, if_neg hfull]
    cases image.setCell image.dataCursor cell <;> rfl

theorem insertCells_translate (cells : List Cell) :
    (image.translate τ).insertCells (cells.map (Cell.translate τ)) =
      ((image.insertCells cells).1.translate τ, τ.outcome id (image.insertCells cells).2) := by
  induction cells generalizing image with
  | nil => rfl
  | cons cell cells ih =>
    rw [List.map_cons, insertCells, insertCells, insertCode_translate]
    cases image.insertCode cell with
    | error fault => rfl
    | ok image => exact ih

theorem cellOver?_translate (limit : Int) (address : Nat) (cells : List Cell) :
    cellOver? limit address (cells.map (Cell.translate τ)) = cellOver? limit address cells := by
  induction cells generalizing address with
  | nil => rfl
  | cons cell cells ih =>
    cases cell with
    | value n =>
      rw [List.map_cons, Cell.translate, cellOver?, cellOver?, ih]
    | symbol r =>
      rw [List.map_cons, Cell.translate, cellOver?, cellOver?, ih]

theorem checkRange_translate (limit : Int) :
    (image.translate τ).checkRange limit = τ.outcome id (image.checkRange limit) := by
  have hcells : cellOver? limit 0 (image.translate τ).memory = cellOver? limit 0 image.memory :=
    cellOver?_translate ..
  have hbindings : ((image.translate τ).symbols.bindings.find? fun b => limit < b.2) =
      (image.symbols.bindings.find? fun b => limit < b.2).map (Prod.map τ.name id) :=
    List.find?_map ..
  unfold checkRange
  rw [hcells, hbindings]
  cases cellOver? limit 0 image.memory with
  | some found => rfl
  | none => cases image.symbols.bindings.find? fun b => limit < b.2 <;> rfl

theorem checks_translate (limit : Int) :
    (do (image.translate τ).checkOverlap; (image.translate τ).checkRange limit) =
      τ.outcome id (do image.checkOverlap; image.checkRange limit) := by
  have hoverlap : (image.translate τ).checkOverlap = image.checkOverlap := rfl
  rw [hoverlap, checkRange_translate, checkOverlap]
  split <;> rfl

theorem resolveCell_translate (symbols : SymbolTable) (cell : Cell) :
    resolveCell (symbols.rename τ.name) (cell.translate τ) =
      ((resolveCell symbols cell).map (Cell.translate τ)).mapError (Reference.translate τ) := by
  cases cell with
  | value n => rfl
  | symbol r =>
    have hname : (r.translate τ).name = τ.name r.name := rfl
    rw [Cell.translate, resolveCell, resolveCell, hname, symbols.find?_rename]
    cases symbols.find? r.name <;> rfl

theorem mapM_resolveCell_translate (symbols : SymbolTable) (cells : List Cell) :
    (cells.map (Cell.translate τ)).mapM (resolveCell (symbols.rename τ.name)) =
      ((cells.mapM (resolveCell symbols)).map (List.map (Cell.translate τ))).mapError
        (Reference.translate τ) := by
  induction cells with
  | nil => rfl
  | cons cell cells ih =>
    rw [List.map_cons, List.mapM_cons, List.mapM_cons, ih, resolveCell_translate]
    cases resolveCell symbols cell with
    | error r => rfl
    | ok cell => cases cells.mapM (resolveCell symbols) <;> rfl

theorem resolve_translate : (image.translate τ).resolve =
    (image.resolve.map (translate τ)).mapError (Reference.translate τ) := by
  have hcells : (image.translate τ).memory.mapM (resolveCell (image.translate τ).symbols) =
      ((image.memory.mapM (resolveCell image.symbols)).map
        (List.map (Cell.translate τ))).mapError (Reference.translate τ) :=
    mapM_resolveCell_translate ..
  rw [resolve, resolve, hcells]
  cases image.memory.mapM (resolveCell image.symbols) <;> rfl

theorem translate_of_resolve {image' : Image} (h : image.resolve = .ok image') :
    image'.translate τ = { image' with symbols := image'.symbols.rename τ.name } := by
  obtain ⟨-, rfl⟩ := resolve_eq_ok_iff.mp h
  simp [translate, Function.comp_def, Cell.translate]

end Image

/-! ## Statements and lines -/

inductive Statement.Translates (τ : Translation) : Statement → Statement → Prop
  | data (name : String) (value : Nat) : Translates τ (data name value) (data (τ.name name) value)
  | label (name : String) : Translates τ (label name) (label (τ.name name))
  | instruction (mnemonic : String) {tokens tokens' : List String}
    (h : Forall₂ τ.IsToken tokens tokens') :
    Translates τ (instruction mnemonic tokens) (instruction mnemonic tokens')

namespace Source

/-- Whether a line is read as the translation of what another one is read as. -/
inductive Translates (τ : Translation) (raw raw' : List Char) : Prop
  | blank (h : Statement.parse raw = .ok none) (h' : Statement.parse raw' = .ok none)
  | statement {s s' : Statement} (h : Statement.parse raw = .ok (some s))
    (h' : Statement.parse raw' = .ok (some s')) (hs : s.Translates τ s')
  | fault {fault : Fault} (h : Statement.parse raw = .error fault)
    (h' : Statement.parse raw' = .error (fault.translate τ))

/--
Whether lines that are numbered from some number on are translations of others, one by one and with
translated numbers. There may be further lines between them that hold no statement.
-/
inductive TranslateFrom (τ : Translation) :
    Int → List (List Char) → Int → List (List Char) → Prop
  | nil (n n' : Int) : TranslateFrom τ n [] n' []
  | line {n n' : Int} {raw raw' : List Char} {raws raws' : List (List Char)} (hn : τ.line n = n')
    (h : Translates τ (trimEnd (· = '\r') raw) (trimEnd (· = '\r') raw'))
    (hrest : TranslateFrom τ (n + 1) raws (n' + 1) raws') :
    TranslateFrom τ n (raw :: raws) n' (raw' :: raws')
  | blank {n n' : Int} {raw' : List Char} {raws raws' : List (List Char)}
    (h : Statement.parse (trimEnd (· = '\r') raw') = .ok none)
    (hrest : TranslateFrom τ n raws (n' + 1) raws') :
    TranslateFrom τ n raws n' (raw' :: raws')

end Source

/-! ## The assembler -/

structure Row.Translates (τ : Translation) (row row' : Row) : Prop where
  address : row'.address = row.address
  cells : row'.cells = row.cells.map (Cell.translate τ)
  line : row'.line = row.line.map τ.line

namespace Assembler

/-- Whether an assembler is the translation of another, up to the text of the lines in its rows. -/
structure Translates (τ : Translation) (a a' : Assembler) : Prop where
  file : a'.file = a.file
  image : a'.image = a.image.translate τ
  rows : Forall₂ (Row.Translates τ) a.rows.toList a'.rows.toList
  warnings : a'.warnings = a.warnings.map (Warning.translate τ)

/-- Whether a result is the translation of another. -/
inductive TranslatesTo (τ : Translation) : Result Failure → Result Failure → Prop
  | passes {a a' : Assembler} (h : a.Translates τ a') : TranslatesTo τ (a, .ok ()) (a', .ok ())
  | fails {a a' : Assembler} (h : a.Translates τ a') (failure : Failure) :
    TranslatesTo τ (a, .error failure) (a', .error (failure.translate τ))

variable {a a' : Assembler}

namespace TranslatesTo

variable {x x' : Result Failure}

theorem of_placed (h : a.Translates τ a') (p : Place) (fault : Fault) :
    TranslatesTo τ (a, .error (fault.placed p))
      (a', .error ((fault.translate τ).placed (p.move τ.line))) := by
  rw [← fault.translate_placed]
  exact .fails h _

theorem assembler (h : TranslatesTo τ x x') : x.1.Translates τ x'.1 := by
  cases h with
  | passes h => exact h
  | fails h => exact h

theorem ending (h : TranslatesTo τ x x') : x'.2 = x.2.mapError (Failure.translate τ) := by
  cases h <;> rfl

theorem passes_iff (h : TranslatesTo τ x x') : x'.2 = .ok () ↔ x.2 = .ok () := by
  cases h <;> simp

theorem image_of_assemble {b : Assembler} {text : String}
    (h : TranslatesTo τ (a.assemble text) x') (hb : a.assemble text = (b, .ok ())) :
    x'.1.image = { b.image with symbols := b.image.symbols.rename τ.name } := by
  have himage := h.assembler.image
  rw [hb] at himage
  obtain ⟨c, image, hr, -, rfl⟩ := assemble_eq_ok_iff.mp hb
  exact himage.trans (Image.translate_of_resolve hr)

end TranslatesTo

theorem translates_new (file : Option String) : (new file).Translates τ (new file) where
  file := rfl
  image := by simp [new, Image.translate, Image.blank, Cell.translate, SymbolTable.rename,
    SymbolTable.empty]
  rows := .nil
  warnings := by simp [new]

namespace Translates

theorem withImage (h : a.Translates τ a') (image : Image) :
    Translates τ { a with image } { a' with image := image.translate τ } :=
  ⟨h.file, rfl, h.rows, h.warnings⟩

theorem bind (h : a.Translates τ a') (name : String) (address : Int) (line : Option Int) :
    (a.bind name address line).Translates τ
      (a'.bind (τ.name name) address (line.map τ.line)) := by
  have hsymbols : a'.image.symbols = a.image.symbols.rename τ.name := congrArg Image.symbols h.image
  unfold Assembler.bind
  rw [hsymbols, a.image.symbols.find?_rename]
  refine ⟨h.file, ?_, h.rows, ?_⟩
  · rw [h.image]
    exact congrArg (Image.mk _ _ _ _) (a.image.symbols.insert_rename name address)
  · cases a.image.symbols.find? name with
    | none => exact h.warnings
    | some previous => simp [h.warnings, h.file, Warning.translate, Place.move]

theorem codeCursor (h : a.Translates τ a') : a'.image.codeCursor = a.image.codeCursor := by
  rw [h.image]
  rfl

theorem dataCursor (h : a.Translates τ a') : a'.image.dataCursor = a.image.dataCursor := by
  rw [h.image]
  rfl

theorem record (h : a.Translates τ a') {row row' : Row} (hrow : row.Translates τ row') :
    TranslatesTo τ (a.record row) (a'.record row') := by
  have hchecks : (do a'.image.checkOverlap; a'.image.checkRange wordLimit) =
      τ.outcome id (do a.image.checkOverlap; a.image.checkRange wordLimit) := by
    rw [h.image, Image.checks_translate]
  unfold Assembler.record
  rw [hchecks]
  cases (do a.image.checkOverlap; a.image.checkRange wordLimit) with
  | error fault => exact .of_placed h .unknown fault
  | ok =>
    apply TranslatesTo.passes
    refine ⟨h.file, h.image, ?_, h.warnings⟩
    rw [Array.toList_push, Array.toList_push]
    exact List.rel_append h.rows (.cons hrow .nil)

theorem enter (h : a.Translates τ a') {s s' : Statement} (hs : s.Translates τ s')
    (source source' : String) (line : Option Int) :
    TranslatesTo τ (a.enter source line s) (a'.enter source' (line.map τ.line) s') := by
  cases hs with
  | data name value =>
    have hinsert : a'.image.insertData (.value value) =
        τ.outcome (Image.translate τ) (a.image.insertData (.value value)) := by
      rw [h.image]
      exact a.image.insertData_translate (.value value)
    unfold Assembler.enter
    dsimp only
    rw [hinsert, h.dataCursor]
    cases a.image.insertData (.value value) with
    | error fault => exact .of_placed h .unknown fault
    | ok image => exact ((h.withImage image).bind name _ line).record ⟨rfl, rfl, rfl⟩
  | label name =>
    unfold Assembler.enter
    dsimp only
    rw [h.codeCursor]
    exact (h.bind name _ line).record ⟨rfl, rfl, rfl⟩
  | instruction mnemonic htokens =>
    unfold Assembler.enter
    dsimp only
    rw [h.codeCursor, Instruction.encode_translate htokens]
    cases Instruction.encode mnemonic _ a.image.codeCursor line with
    | error fault =>
      have hplace : (⟨a'.file, line.map τ.line⟩ : Place) = Place.move τ.line ⟨a.file, line⟩ := by
        rw [h.file]
        rfl
      dsimp only [Translation.outcome]
      rw [hplace]
      exact .of_placed h _ fault
    | ok cells =>
      dsimp only [Translation.outcome]
      rw [h.image, Image.insertCells_translate]
      rcases a.image.insertCells cells with ⟨image, fault | ⟨⟩⟩
      · exact .of_placed (h.withImage image) .unknown fault
      · exact (h.withImage image).record ⟨rfl, rfl, rfl⟩

theorem addLine (h : a.Translates τ a') {raw raw' : List Char}
    (hraw : Source.Translates τ raw raw') (line : Option Int) :
    TranslatesTo τ (a.addLine raw line) (a'.addLine raw' (line.map τ.line)) := by
  unfold Assembler.addLine
  cases hraw with
  | blank hp hp' =>
    rw [hp, hp']
    exact .passes h
  | statement hp hp' hs =>
    rw [hp, hp']
    exact h.enter hs _ _ line
  | fault hp hp' =>
    rw [hp, hp', h.file]
    exact .of_placed h ⟨a.file, line⟩ _

theorem locate (h : a.Translates τ a') (n : Int) (failure : Failure) :
    a'.locate (τ.line n) (failure.translate τ) = (a.locate n failure).translate τ := by
  cases failure with
  | defect d => rfl
  | diagnostic d =>
    obtain ⟨c, file, _ | m⟩ := d <;> simp [Failure.translate, Place.move, Assembler.locate,
      h.file]

theorem addLines (h : a.Translates τ a') {n n' : Int} {raws raws' : List (List Char)}
    (hraws : Source.TranslateFrom τ n raws n' raws') :
    TranslatesTo τ (a.addLines n raws) (a'.addLines n' raws') := by
  induction hraws generalizing a a' with
  | nil => exact .passes h
  | @line n n' raw raw' raws raws' hn hraw _ ih =>
    subst hn
    have hstep := h.addLine hraw (some n)
    rw [Option.map_some] at hstep
    rw [Assembler.addLines, Assembler.addLines]
    generalize a.addLine (trimEnd (· = '\r') raw) (some n) = x at hstep ⊢
    generalize a'.addLine (trimEnd (· = '\r') raw') (some (τ.line n)) = x' at hstep ⊢
    cases hstep with
    | passes h => exact ih h
    | fails h failure =>
      dsimp only
      rw [h.locate]
      exact .fails h _
  | @blank n n' raw' raws raws' hp _ ih =>
    have hpass : a'.addLine (trimEnd (· = '\r') raw') (some n') = (a', .ok ()) := by
      rw [Assembler.addLine, hp]
    rw [Assembler.addLines, hpass]
    exact ih h

/-- Translated lines are assembled to the translation of what the lines are assembled to. -/
theorem assemble (h : a.Translates τ a') {text text' : String}
    (htext : Source.TranslateFrom τ 1 (lines text.toList) 1 (lines text'.toList)) :
    TranslatesTo τ (a.assemble text) (a'.assemble text') := by
  have hlines := h.addLines htext
  unfold Assembler.assemble
  generalize a.addLines 1 (lines text.toList) = x at hlines ⊢
  generalize a'.addLines 1 (lines text'.toList) = x' at hlines ⊢
  cases hlines with
  | fails h failure => exact .fails h failure
  | @passes b b' h =>
    dsimp only [Assembler.resolve]
    rw [h.image, Image.resolve_translate]
    cases b.image.resolve with
    | ok image => exact .passes (h.withImage image)
    | error r =>
      dsimp only [Except.map, Except.mapError]
      rw [h.file, ← r.translate_undefined]
      exact .fails h _

end Translates

end Assembler

end Nibble
