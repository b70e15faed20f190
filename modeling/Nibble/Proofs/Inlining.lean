import Nibble.Proofs.Listed
import Nibble.Proofs.Tokens

/-! # Inlining addresses

A symbol in an operand means its address. With the address in its place, as a number, a source is
assembled into the same image: a cell that is resolved last of all holds what the number would have
put there at once.
-/

namespace Nibble

open List (Forall₂)
open Text

/-! ## What symbols stand for -/

def Cell.number? (t : SymbolTable) : Cell → Option Int
  | value n => some n
  | symbol r => t.find? r.name

def Argument.value? (t : SymbolTable) : Argument → Option Int
  | number n => some n
  | symbol name => t.find? name

/-- What a token stands for: a register or a number, if it can be read. -/
def Term.denote? (t : SymbolTable) (token : String) : Option (Register ⊕ Option Int) :=
  (Term.ofToken? token).map (Sum.map id (Argument.value? t))

variable {t : SymbolTable}

theorem Cell.bound_iff {cell : Cell} : cell.Bound t ↔ ∃ n, cell.number? t = some n := by
  cases cell <;> simp [Bound, number?]

theorem Cell.map_number_eq (cells : List Cell) :
    cells.map (number t.address) = (cells.map (number? t)).map (Option.getD · 0) := by
  have hf : number t.address = (Option.getD · 0) ∘ number? t := by
    funext cell
    cases cell <;> rfl
  rw [hf, List.map_map]

namespace Term

variable {α : Type} {f : Argument → α} {u : Term}

theorem eq_inl_of_map_eq {r : Register} (h : Sum.map id f u = .inl r) : u = .inl r := by
  cases u with
  | inl s =>
    cases h
    rfl
  | inr x => cases h

theorem exists_inr_of_map_eq {value : α} (h : Sum.map id f u = .inr value) :
    ∃ x, u = .inr x ∧ f x = value := by
  cases u with
  | inl s => cases h
  | inr x =>
    cases h
    exact ⟨x, rfl, rfl⟩

theorem exists_mapM_of_denote? {tokens tokens' : List String} {us : List Term}
    (hus : tokens.mapM ofToken? = some us)
    (h : tokens'.map (denote? t) = tokens.map (denote? t)) :
    ∃ us', tokens'.mapM ofToken? = some us' ∧
      us'.map (Sum.map id (Argument.value? t)) = us.map (Sum.map id (Argument.value? t)) := by
  simp only [mapM_eq_some_iff] at hus ⊢
  induction hus generalizing tokens' with
  | nil =>
    obtain rfl := List.map_eq_nil_iff.mp h
    exact ⟨[], .nil, rfl⟩
  | @cons token u tokens us hu _ ih =>
    obtain ⟨token', rest, rfl, htoken, hrest⟩ := List.map_eq_cons_iff.mp h
    rw [denote?, denote?, hu, Option.map_some] at htoken
    obtain ⟨u', hu', heq⟩ := Option.map_eq_some_iff.mp htoken
    obtain ⟨us', hus', heqs⟩ := ih hrest
    exact ⟨u' :: us', .cons hu' hus', congrArg₂ List.cons heq heqs⟩

end Term

namespace Command

theorem map_number?_cells (c : Command Argument) (lc : Int) (line : Option Int) :
    (c.cells lc line).map (Cell.number? t) = (c.map (Argument.value? t)).emit some lc := by
  have hf : Cell.number? t ∘ Argument.cell line = Argument.value? t := by
    funext x
    cases x <;> rfl
  rw [map_cells, hf]
  rfl

theorem exists_of_terms {α : Type} (f : Argument → α) (c : Command Argument) {ts : List Term}
    (h : ts.map (Sum.map id f) = c.terms.map (Sum.map id f)) :
    ∃ c' : Command Argument, c'.mnemonic = c.mnemonic ∧ c'.terms = ts ∧ c'.map f = c.map f := by
  cases c with
  | halt | add | sub | bell =>
    obtain rfl := List.map_eq_nil_iff.mp h
    exact ⟨_, rfl, rfl, rfl⟩
  | inc r | dec r | printRegister r =>
    obtain ⟨u, rfl, hu⟩ := List.map_eq_singleton_iff.mp h
    obtain rfl := Term.eq_inl_of_map_eq hu
    exact ⟨_, rfl, rfl, rfl⟩
  | print x =>
    obtain ⟨u, rfl, hu⟩ := List.map_eq_singleton_iff.mp h
    obtain ⟨y, rfl, hy⟩ := Term.exists_inr_of_map_eq hu
    exact ⟨print y, rfl, rfl, congrArg print hy⟩
  | jump condition x =>
    obtain ⟨u, rfl, hu⟩ := List.map_eq_singleton_iff.mp h
    obtain ⟨y, rfl, hy⟩ := Term.exists_inr_of_map_eq hu
    exact ⟨jump condition y, by cases condition <;> rfl, rfl, congrArg (jump condition) hy⟩
  | store r x =>
    obtain ⟨u, us, rfl, hu, hus⟩ := List.map_eq_cons_iff.mp h
    obtain ⟨v, rfl, hv⟩ := List.map_eq_singleton_iff.mp hus
    obtain rfl := Term.eq_inl_of_map_eq hu
    obtain ⟨y, rfl, hy⟩ := Term.exists_inr_of_map_eq hv
    exact ⟨store r y, rfl, rfl, congrArg (store r) hy⟩
  | load x r =>
    obtain ⟨u, us, rfl, hu, hus⟩ := List.map_eq_cons_iff.mp h
    obtain ⟨v, rfl, hv⟩ := List.map_eq_singleton_iff.mp hus
    obtain ⟨y, rfl, hy⟩ := Term.exists_inr_of_map_eq hu
    obtain rfl := Term.eq_inl_of_map_eq hv
    exact ⟨load y r, rfl, rfl, congrArg (load · r) hy⟩

variable {tokens tokens' : List String} {mnemonic : String}

theorem exists_of_denote? {c : Command Argument} (hc : ofTokens mnemonic tokens = some c)
    (h : tokens'.map (Term.denote? t) = tokens.map (Term.denote? t)) :
    ∃ c', ofTokens mnemonic tokens' = some c' ∧
      c'.map (Argument.value? t) = c.map (Argument.value? t) := by
  obtain ⟨rfl, hts⟩ := ofTokens_eq_some_iff.mp hc
  obtain ⟨ts', hts', heq⟩ := Term.exists_mapM_of_denote? hts h
  obtain ⟨c', hm, rfl, hc'⟩ := c.exists_of_terms _ heq
  exact ⟨c', ofTokens_eq_some_iff.mpr ⟨hm.symm, hts'⟩, hc'⟩

end Command

/-- Instructions whose operands stand for the same are both encoded, into cells that stand for the
same, or both refused. -/
theorem Instruction.encode_congr {mnemonic : String} {tokens tokens' : List String}
    (h : tokens'.map (Term.denote? t) = tokens.map (Term.denote? t)) (address : Int)
    (line : Option Int) :
    (encode mnemonic tokens' address line).toOption.map (List.map (Cell.number? t)) =
      (encode mnemonic tokens address line).toOption.map (List.map (Cell.number? t)) := by
  have himp : ∀ {tokens tokens' : List String},
      tokens'.map (Term.denote? t) = tokens.map (Term.denote? t) → ∀ numbers,
      (encode mnemonic tokens address line).toOption.map (List.map (Cell.number? t)) =
        some numbers →
      (encode mnemonic tokens' address line).toOption.map (List.map (Cell.number? t)) =
        some numbers := by
    intro tokens tokens' h numbers he
    cases hcells : encode mnemonic tokens address line with
    | error fault =>
      rw [hcells] at he
      cases he
    | ok cells =>
      obtain ⟨c, hc, rfl⟩ := encode_eq_ok_iff.mp hcells
      obtain ⟨c', hc', hmap⟩ := Command.exists_of_denote? hc h
      have hcells' : encode mnemonic tokens' address line = .ok (c'.cells address line) :=
        encode_eq_ok_iff.mpr ⟨c', hc', rfl⟩
      rw [hcells] at he
      rw [hcells', ← he]
      simp only [Except.toOption, Option.map_some, Command.map_number?_cells, hmap]
  exact Option.ext fun numbers => ⟨himp h.symm numbers, himp h numbers⟩

def Operand.literal (n : Int) : String :=
  "$" ++ toString n

theorem Term.ofToken?_literal {n : Nat} (h : n < memorySize) :
    ofToken? (Operand.literal n) = some (.inr (.number n)) := by
  have hall : ∀ n < memorySize,
      ofToken? (Operand.literal (n : Nat)) = some (.inr (.number n)) := by
    decide +kernel
  exact hall n h

theorem Statement.ofToken?_of_symbol? {token name : String} (h : symbol? token = some name) :
    Term.ofToken? token = some (.inr (.symbol name)) := by
  unfold symbol? at h
  split at h
  next r hp =>
    cases h
    rw [Term.ofToken?, hp]
    rfl
  next => cases h

theorem Term.denote?_literal {token name : String} {address : Int}
    (hs : Statement.symbol? token = some name) (ha : t.find? name = some address)
    (hn : IsNibble address) : denote? t (Operand.literal address) = denote? t token := by
  obtain ⟨n, hlt, rfl⟩ := hn.exists_nat
  rw [denote?, denote?, ofToken?_literal hlt, Statement.ofToken?_of_symbol? hs]
  simp only [Option.map_some, Sum.map_inr, Argument.value?, ha]

/-! ## Lines with numbers in the place of symbols -/

/-- Two items that put cells which stand for the same into the memory. -/
inductive Item.Agrees (t : SymbolTable) : Item → Item → Prop
  | data (name : String) (value : Nat) : Agrees t (.data name value) (.data name value)
  | label (name : String) : Agrees t (.label name) (.label name)
  | command {c c' : Command Argument}
    (h : c'.map (Argument.value? t) = c.map (Argument.value? t)) :
    Agrees t (.command c) (.command c')

theorem Item.Agrees.refl (item : Item) : item.Agrees t item := by
  cases item with
  | data name value => exact .data name value
  | label name => exact .label name
  | command c => exact .command rfl

namespace Source

/--
A line that results from another by putting addresses into the place of symbols, one after another:
each is an operand of an instruction, and has an address in the table.
-/
inductive Inlined (t : SymbolTable) (raw : List Char) : List Char → Prop
  | refl : Inlined t raw raw
  | operand {before token after : List Char} {mnemonic name : String} {operands : List String}
    {address : Int} (h : Inlined t raw (before ++ token ++ after))
    (hs : statement? (before ++ token ++ after) = some (.instruction mnemonic operands))
    (hb : Statement.Around before after)
    (hn : Statement.symbol? (String.ofList token) = some name)
    (ha : t.find? name = some address) :
    Inlined t raw (before ++ (Operand.literal address).toList ++ after)

variable {raw raw' : List Char}

theorem Inlined.parse_eq_none (h : Inlined t raw raw') (hp : Statement.parse raw = .ok none) :
    Statement.parse raw' = .ok none := by
  induction h with
  | refl => exact hp
  | operand _ hs _ _ _ ih =>
    rw [statement?_eq_some_iff, ih] at hs
    cases hs

theorem Inlined.exists_item (ht : ∀ b ∈ t.bindings, IsNibble b.2) (h : Inlined t raw raw')
    {item : Item} (hi : item? raw = some item) :
    ∃ item', item? raw' = some item' ∧ item.Agrees t item' := by
  induction h with
  | refl => exact ⟨item, hi, .refl item⟩
  | @operand before token after mnemonic name operands address _ hs hb hn ha ih =>
    obtain ⟨mid, hmid, hagrees⟩ := ih
    -- only a word can be written as an operand, so the addresses in the table have to be words
    have hnibble := SymbolTable.isNibble_of_find? ht ha
    have hdenote := Term.denote?_literal hn ha hnibble
    obtain ⟨k, hk, rfl⟩ := hnibble.exists_nat
    have htoken : Statement.IsToken token := by
      have h := Statement.isToken_of_ofToken? (Statement.ofToken?_of_symbol? hn)
      rwa [String.toList_ofList] at h
    have hliteral : Statement.IsToken (Operand.literal k).toList :=
      Statement.isToken_of_ofToken? (Term.ofToken?_literal hk)
    obtain ⟨pre, post, rfl, hp⟩ :=
      hb.parse_replace htoken hliteral (statement?_eq_some_iff.mp hs)
    rw [item?, hs, Option.bind_some] at hmid
    obtain ⟨c, hc, rfl⟩ := Option.map_eq_some_iff.mp hmid
    have htokens : (pre ++ Operand.literal k :: post).map (Term.denote? t) =
        (pre ++ String.ofList token :: post).map (Term.denote? t) := by
      rw [List.map_append, List.map_append, List.map_cons, List.map_cons, hdenote]
    obtain ⟨c', hc', hmap⟩ := Command.exists_of_denote? hc htokens
    rw [String.ofList_toList] at hp
    refine ⟨.command c', ?_, ?_⟩
    · rw [item?, statement?_eq_some_iff.mpr hp, Option.bind_some, Statement.item?, hc']
      rfl
    · cases hagrees with
      | command h => exact .command (hmap.trans h)

end Source

/-! ## Layouts that stand for the same -/

namespace Layout

/-- Two layouts whose cells stand for the same. -/
structure Agrees (t : SymbolTable) (l l' : Layout) : Prop where
  code : l'.code.map (Cell.number? t) = l.code.map (Cell.number? t)
  data : l'.data = l.data
  symbols : l'.symbols = l.symbols

namespace Agrees

variable {l l' : Layout} {item item' : Item}

theorem refl (l : Layout) : l.Agrees t l :=
  ⟨rfl, rfl, rfl⟩

theorem length_code (h : l.Agrees t l') : l'.code.length = l.code.length := by
  simpa using congrArg List.length h.code

theorem size_eq (h : l.Agrees t l') : l'.size = l.size := by
  rw [size, h.length_code, h.data, size]

theorem dataCursor_eq (h : l.Agrees t l') : l'.dataCursor = l.dataCursor := by
  rw [dataCursor, h.data, dataCursor]

theorem room (h : l.Agrees t l') (hi : item.Agrees t item') (hr : l.Room item) :
    l'.Room item' := by
  cases hi with
  | data name value => exact (congrArg (· + 1 ≤ memorySize) h.size_eq).mpr hr
  | label name => exact (congrArg (· < memorySize) h.length_code).mpr hr
  | @command c c' hc =>
    have hsize : c'.size = c.size := by
      have := congrArg Command.size hc
      rwa [Command.size_map, Command.size_map] at this
    rw [Room, h.size_eq, hsize]
    exact hr

theorem add (h : l.Agrees t l') (hi : item.Agrees t item') (line : Option Int) :
    (l.add line item).Agrees t (l'.add line item') := by
  cases hi with
  | data name value =>
    refine ⟨h.code, congrArg (value :: ·) h.data, ?_⟩
    rw [Layout.add, Layout.add, h.symbols, h.dataCursor_eq]
  | label name =>
    refine ⟨h.code, h.data, ?_⟩
    rw [Layout.add, Layout.add, h.symbols, h.length_code]
  | command hc =>
    refine ⟨?_, h.data, h.symbols⟩
    rw [Layout.add, Layout.add, List.map_append, List.map_append, h.code, h.length_code,
      Command.map_number?_cells, Command.map_number?_cells, hc]

theorem address_row (h : l.Agrees t l') (hi : item.Agrees t item') (line : Option Int)
    (source source' : String) :
    (l'.row line source' item').address = (l.row line source item).address := by
  cases hi with
  | data name value => exact h.dataCursor_eq
  | label name => exact congrArg Nat.cast h.length_code
  | command hc => exact congrArg Nat.cast h.length_code

theorem memory (h : l.Agrees t l') :
    l'.image.memory.map (Cell.number? t) = l.image.memory.map (Cell.number? t) := by
  simp only [image, List.map_append, h.code, h.size_eq, h.data]

theorem resolve (h : l.Agrees l.symbols l') {image : Image} (hr : l.image.resolve = .ok image) :
    l'.image.resolve = .ok image := by
  obtain ⟨hb, rfl⟩ := Image.resolve_eq_ok_iff.mp hr
  have hsymbols : l'.image.symbols = l.image.symbols := h.symbols
  apply Image.resolve_eq_ok_iff.mpr
  rw [hsymbols]
  constructor
  · intro cell' hc'
    have hmem : cell'.number? l.symbols ∈ l.image.memory.map (Cell.number? l.symbols) :=
      h.memory ▸ List.mem_map_of_mem hc'
    obtain ⟨cell, hc, hnumber⟩ := List.mem_map.mp hmem
    obtain ⟨n, hn⟩ := Cell.bound_iff.mp (hb cell hc)
    exact Cell.bound_iff.mpr ⟨n, hnumber.symm.trans hn⟩
  · have hcode : l'.image.codeCursor = l.image.codeCursor := congrArg Nat.cast h.length_code
    have hdata : l'.image.dataCursor = l.image.dataCursor := h.dataCursor_eq
    have hmemory := congrArg (List.map (Option.getD · 0)) h.memory
    rw [← Cell.map_number_eq, ← Cell.map_number_eq] at hmemory
    rw [hcode, hdata]
    exact congrArg (fun numbers => Image.mk _ (numbers.map Cell.value) _ _ _) hmemory.symm

end Agrees

end Layout

namespace Assembler

open Source

/-- Two assemblers whose images stand for the same, and which have listed the same addresses. -/
structure Agrees (t : SymbolTable) (a a' : Assembler) : Prop where
  layouts : ∃ l l', a.Holds l ∧ a'.Holds l' ∧ l.Agrees t l'
  addresses : a'.rows.toList.map Row.address = a.rows.toList.map Row.address

theorem Holds.rows_of_addLine {a a' : Assembler} {l : Layout} {raw : List Char}
    {line : Option Int} {item : Item} (h : a.Holds l) (ha : a.addLine raw line = (a', .ok ()))
    (hi : item? raw = some item) :
    a'.rows = a.rows.push (l.row line (String.ofList (trim raw)) item) := by
  obtain ⟨s, hs, hsi⟩ := Option.bind_eq_some_iff.mp hi
  rw [addLine_of_statement hs] at ha
  exact h.rows_of_enter ha hsi

namespace Agrees

variable {a a' b : Assembler} {raw raw' : List Char} {lines lines' : List (Option Int × List Char)}

/-- One line keeps two assemblers in agreement. -/
theorem addLine (ht : ∀ b ∈ t.bindings, IsNibble b.2) (h : a.Agrees t a')
    (hraw : Inlined t raw raw') {line : Option Int} (ha : a.addLine raw line = (b, .ok ())) :
    ∃ b', a'.addLine raw' line = (b', .ok ()) ∧ b.Agrees t b' := by
  obtain ⟨l, l', hl, hl', hagrees⟩ := h.layouts
  rcases hl.cases_addLine ha with ⟨hp, rfl⟩ | ⟨item, hi, hr, hbl⟩
  · exact ⟨a', addLine_of_blank (hraw.parse_eq_none hp), h⟩
  · obtain ⟨item', hi', hitem⟩ := hraw.exists_item ht hi
    obtain ⟨b', hb', hbl'⟩ := hl'.addLine line hi' (hagrees.room hitem hr)
    refine ⟨b', hb', ⟨_, _, hbl, hbl', hagrees.add hitem line⟩, ?_⟩
    rw [hl.rows_of_addLine ha hi, hl'.rows_of_addLine hb' hi', Array.toList_push,
      Array.toList_push, List.map_append, List.map_append, h.addresses, List.map_singleton,
      List.map_singleton, hagrees.address_row hitem]

theorem feed (ht : ∀ b ∈ t.bindings, IsNibble b.2) (h : a.Agrees t a')
    (hlines : Forall₂ (fun x x' => x'.1 = x.1 ∧ Inlined t x.2 x'.2) lines lines')
    (ha : a.feed lines = (b, .ok ())) : ∃ b', a'.feed lines' = (b', .ok ()) ∧ b.Agrees t b' := by
  induction hlines generalizing a a' with
  | nil =>
    cases ha
    exact ⟨a', rfl, h⟩
  | @cons x x' lines lines' hx _ ih =>
    obtain ⟨line, raw⟩ := x
    obtain ⟨line', raw'⟩ := x'
    obtain ⟨rfl, hraw⟩ := hx
    rw [Assembler.feed] at ha
    split at ha
    next a₁ ha₁ =>
      obtain ⟨a₁', ha₁', h₁⟩ := h.addLine ht hraw ha₁
      rw [Assembler.feed, ha₁']
      exact ih h₁ ha
    next => cases ha

end Agrees

variable {a : Assembler} {file : Option String} {text text' : String}

/--
A text that is assembled still is with addresses in the place of symbols in its operands, if they
are those that the symbols have in the end: into the same image, listed at the same addresses. For
an operand that is a symbol is accepted where its address is, and put into the same cells.
-/
theorem assemble_of_inlined (h : (new file).assemble text = (a, .ok ()))
    (hlines : Forall₂ (fun x x' => x'.1 = x.1 ∧ Inlined a.image.symbols x.2 x'.2)
      (ofText text) (ofText text')) :
    (∃ a', (new file).assemble text' = (a', .ok ()) ∧ a'.image = a.image ∧
      a'.rows.toList.map Row.address = a.rows.toList.map Row.address) ∧
    ∀ (mnemonic : String) (tokens tokens' : List String) (address : Int) (line : Option Int),
      Forall₂ (fun token token' => token' = token ∨ ∃ name value,
        Statement.symbol? token = some name ∧ a.image.symbols.find? name = some value ∧
          token' = Operand.literal value) tokens tokens' →
      (Instruction.encode mnemonic tokens' address line).toOption.map
          (List.map (Cell.number? a.image.symbols)) =
        (Instruction.encode mnemonic tokens address line).toOption.map
          (List.map (Cell.number? a.image.symbols)) := by
  obtain ⟨b, image, hr, hb, rfl⟩ := assemble_eq_ok_iff.mp h
  have hholds := ((holds_new file).of_feed hb).1
  have hsymbols : image.symbols = b.image.symbols := by
    obtain ⟨-, rfl⟩ := Image.resolve_eq_ok_iff.mp hr
    rfl
  have ht : ∀ x ∈ image.symbols.bindings, IsNibble x.2 := by
    rw [hsymbols, hholds.image]
    exact hholds.fits.symbols
  constructor
  · have hstart : (new file).Agrees image.symbols (new file) :=
      ⟨⟨_, _, holds_new file, holds_new file, .refl _⟩, rfl⟩
    obtain ⟨b', hb', hagrees⟩ := hstart.feed ht hlines hb
    obtain ⟨l, l', hl, hl', hlayouts⟩ := hagrees.layouts
    have htable : image.symbols = l.symbols := by
      rw [hsymbols, hl.image]
      rfl
    rw [hl.image] at hr
    rw [htable] at hlayouts
    have hr' : b'.image.resolve = .ok image := by
      rw [hl'.image]
      exact hlayouts.resolve hr
    exact ⟨{ b' with image }, assemble_eq_ok_iff.mpr ⟨b', image, hr', hb', rfl⟩, rfl,
      hagrees.addresses⟩
  · intro mnemonic tokens tokens' address line htokens
    apply Instruction.encode_congr
    have hdenote : Forall₂ (fun token token' => Term.denote? image.symbols token =
        Term.denote? image.symbols token') tokens tokens' := by
      refine htokens.imp ?_
      rintro token token' (rfl | ⟨name, value, hs, ha, rfl⟩)
      · rfl
      · exact (Term.denote?_literal hs ha (SymbolTable.isNibble_of_find? ht ha)).symm
    apply Eq.symm
    rwa [← List.forall₂_eq_eq_eq, List.forall₂_map_left_iff, List.forall₂_map_right_iff]

/-- A symbol that is bound later and one whose data come first; only the former is replaced. -/
theorem assemble_of_inlined_forward :
    let text := ".data n, 7\njmp end # skip\nprnt n\nend:\nhalt"
    let text' := ".data n, 7\njmp $4 # skip\nprnt n\nend:\nhalt"
    ∃ a, (new none).assemble text = (a, .ok ()) ∧
      Forall₂ (fun x x' => x'.1 = x.1 ∧ Inlined a.image.symbols x.2 x'.2)
        (ofText text) (ofText text') ∧
      ∃ a', (new none).assemble text' = (a', .ok ()) ∧ a'.image = a.image ∧
        a'.rows.toList.map Row.address = a.rows.toList.map Row.address := by
  intro text text'
  have hok : ((new none).assemble text).2 = .ok () := by decide +kernel
  have hsymbols : ((new none).assemble text).1.image.symbols = ⟨[("n", 15), ("end", 4)]⟩ := by
    decide +kernel
  have hlines : ofText text = [(some 1, ".data n, 7".toList), (some 2, "jmp end # skip".toList),
      (some 3, "prnt n".toList), (some 4, "end:".toList), (some 5, "halt".toList)] := by
    decide +kernel
  have hlines' : ofText text' = [(some 1, ".data n, 7".toList), (some 2, "jmp $4 # skip".toList),
      (some 3, "prnt n".toList), (some 4, "end:".toList), (some 5, "halt".toList)] := by
    decide +kernel
  have hjump : Inlined ⟨[("n", 15), ("end", 4)]⟩ "jmp end # skip".toList
      "jmp $4 # skip".toList := by
    have hs : statement? ("jmp ".toList ++ "end".toList ++ " # skip".toList) =
        some (.instruction "jmp" ["end"]) := by
      decide +kernel
    have haround : Statement.Around "jmp ".toList " # skip".toList := by
      refine ⟨by decide, ⟨'j', by decide, by decide⟩, ⟨' ', by decide, by decide⟩, ?_⟩
      rintro c ⟨⟩
      exact .inl (by decide)
    have hn : Statement.symbol? (String.ofList "end".toList) = some "end" := by decide +kernel
    have ha : SymbolTable.find? ⟨[("n", 15), ("end", 4)]⟩ "end" = some 4 := by decide
    exact Inlined.operand .refl hs haround hn ha
  have hinlined : Forall₂ (fun x x' => x'.1 = x.1 ∧
      Inlined ((new none).assemble text).1.image.symbols x.2 x'.2)
      (ofText text) (ofText text') := by
    rw [hsymbols, hlines, hlines']
    exact .cons ⟨rfl, .refl⟩ (.cons ⟨rfl, hjump⟩ (.cons ⟨rfl, .refl⟩ (.cons ⟨rfl, .refl⟩
      (.cons ⟨rfl, .refl⟩ .nil))))
  exact ⟨_, Prod.ext rfl hok, hinlined, (assemble_of_inlined (Prod.ext rfl hok) hinlined).1⟩

end Assembler

end Nibble
