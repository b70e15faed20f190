import Nibble.Proofs.Naming

/-! # Capacity

Which texts are assembled is decided by counting: the cells of all statements have to fit into the
memory, a label needs a cell to point to, and every symbol in an operand has to be bound.
-/

namespace Nibble

open List (Forall₂)

namespace Statement

def isRegister (token : String) : Bool :=
  (Operand.register? token.toList).isSome

def isData : Statement → Bool
  | data _ _ => true
  | _ => false

def isInstruction : Statement → Bool
  | instruction _ _ => true
  | _ => false

def symbol? (token : String) : Option String :=
  match Operand.parse token none with
  | .ok (.symbol r) => some r.name
  | _ => none

/-- The code cells of a statement. -/
def codeCells : Statement → Nat
  | instruction mnemonic tokens =>
    if mnemonic ∈ ["halt", "add", "sub", "bell", "inc", "dec"] then 1
    else if mnemonic = "prnt" ∧ tokens.any isRegister then 4
    else 2
  | _ => 0

def cells : Statement → Nat
  | data _ _ => 1
  | s => s.codeCells

/-- The symbols that a statement uses as operands. -/
def references : Statement → List String
  | instruction _ tokens => tokens.filterMap symbol?
  | _ => []

/-- The name that a statement binds. -/
def binding? : Statement → Option String
  | data name _ => some name
  | label name => some name
  | instruction _ _ => none

theorem isRegister_eq {token : String} {t : Term} (h : Term.ofToken? token = some t) :
    isRegister token = t.isLeft := by
  obtain ⟨op, hp, rfl⟩ := Option.map_eq_some_iff.mp h
  unfold isRegister
  cases hp' : Operand.parse token none with
  | error fault =>
    rw [hp'] at hp
    cases hp
  | ok op' =>
    rw [hp'] at hp
    cases hp
    unfold Operand.parse at hp'
    split at hp'
    next r hr =>
      cases hp'
      rw [hr]
      rfl
    next hr =>
      rw [hr]
      split at hp'
      · split at hp'
        · cases hp'
        · split at hp' <;> cases hp'
          rfl
      · split at hp' <;> cases hp'
        rfl

theorem symbol?_eq {token : String} {t : Term} (h : Term.ofToken? token = some t) :
    symbol? token = t.name? := by
  obtain ⟨op, hp, rfl⟩ := Option.map_eq_some_iff.mp h
  unfold symbol?
  cases hp' : Operand.parse token none with
  | error fault =>
    rw [hp'] at hp
    cases hp
  | ok op' =>
    rw [hp'] at hp
    cases hp
    cases op <;> rfl

variable {s : Statement} {item : Item}

theorem map_tokens_eq {α : Type} {f : String → α} {g : Term → α} {tokens : List String}
    {ts : List Term} (hfg : ∀ token t, Term.ofToken? token = some t → f token = g t)
    (h : tokens.mapM Term.ofToken? = some ts) : tokens.map f = ts.map g := by
  have hf : Forall₂ (fun token t => f token = g t) tokens ts :=
    (mapM_eq_some_iff.mp h).imp hfg
  rwa [← List.forall₂_eq_eq_eq, List.forall₂_map_left_iff, List.forall₂_map_right_iff]

theorem codeCells_instruction {mnemonic : String} {tokens : List String} {c : Command Argument}
    (h : Command.ofTokens mnemonic tokens = some c) :
    (instruction mnemonic tokens).codeCells = c.size := by
  obtain ⟨rfl, hts⟩ := Command.ofTokens_eq_some_iff.mp h
  have hany : tokens.any isRegister = c.terms.any Sum.isLeft := by
    have hmap := map_tokens_eq (fun _ _ => isRegister_eq) hts
    simpa using congrArg (List.any · id) hmap
  rw [codeCells, hany]
  cases c with
  | jump condition x => cases condition <;> rfl
  | _ => rfl

theorem references_eq (h : s.item? = some item) : s.references = item.references := by
  cases means_of_item? h with
  | data | label => rfl
  | command hc =>
    have hmap := map_tokens_eq (fun _ _ => symbol?_eq) (Command.ofTokens_eq_some_iff.mp hc).2
    simpa [references, Item.references, List.filterMap_map] using
      congrArg (List.filterMap id) hmap

theorem binding?_eq (h : s.item? = some item) : s.binding? = item.binding? := by
  cases means_of_item? h <;> rfl

end Statement

def codeSize : List Statement → Nat
  | [] => 0
  | s :: ss => s.codeCells + codeSize ss

def totalSize : List Statement → Nat
  | [] => 0
  | s :: ss => s.cells + totalSize ss

/-- No label comes after all cells are code, of which `filled` come before the statements. -/
def LabelsFit (filled : Nat) (ss : List Statement) : Prop :=
  ∀ before name after, ss = before ++ .label name :: after →
    filled + codeSize before < memorySize

theorem labelsFit_cons_iff {filled : Nat} {s : Statement} {ss : List Statement} :
    LabelsFit filled (s :: ss) ↔
      (∀ name, s = .label name → filled < memorySize) ∧ LabelsFit (filled + s.codeCells) ss := by
  constructor
  · intro h
    constructor
    · rintro name rfl
      exact h [] name ss rfl
    · rintro before name after rfl
      rw [Nat.add_assoc]
      exact h (s :: before) name after rfl
  · rintro ⟨hs, hss⟩ before name after h
    cases before with
    | nil =>
      cases h
      exact hs name rfl
    | cons t before =>
      cases h
      have := hss before name after rfl
      rwa [Nat.add_assoc] at this

namespace Layout

variable {l : Layout} {s : Statement} {ss : List Statement} {item : Item}
  {items : List (Option Int × Item)}

theorem room_iff (hi : s.item? = some item) (hl : l.size ≤ memorySize) :
    l.Room item ↔
      l.size + s.cells ≤ memorySize ∧ ∀ name, s = .label name → l.code.length < memorySize := by
  cases Statement.means_of_item? hi with
  | data name value => simp [Room, Statement.cells]
  | label name => simp [Room, Statement.cells, Statement.codeCells, hl]
  | command hc => simp [Room, Statement.cells, Statement.codeCells_instruction hc]

theorem length_code_add (hi : s.item? = some item) (line : Option Int) :
    (l.add line item).code.length = l.code.length + s.codeCells := by
  cases Statement.means_of_item? hi with
  | data | label => rfl
  | command hc => simp [add, Statement.codeCells_instruction hc]

theorem size_add (hi : s.item? = some item) (line : Option Int) :
    (l.add line item).size = l.size + s.cells := by
  have hcode := l.length_code_add hi line
  cases Statement.means_of_item? hi with
  | data | label => rfl
  | command hc =>
    rw [size, size, hcode, Nat.add_right_comm]
    rfl

theorem hasRoom_iff (hf : Forall₂ (fun s x => s.item? = some x.2) ss items)
    (hl : l.size ≤ memorySize) :
    l.HasRoom items ↔ l.size + totalSize ss ≤ memorySize ∧ LabelsFit l.code.length ss := by
  induction hf generalizing l with
  | nil => simp [HasRoom, totalSize, LabelsFit, hl]
  | @cons s x ss items hi hf ih =>
    have hroom := room_iff hi hl
    have hsize := l.size_add hi x.1
    rw [HasRoom, labelsFit_cons_iff, totalSize, ← Nat.add_assoc]
    constructor
    · rintro ⟨hr, hrest⟩
      obtain ⟨hfit, hlabel⟩ := hroom.mp hr
      rw [ih (hsize ▸ hfit), hsize, length_code_add hi] at hrest
      exact ⟨hrest.1, hlabel, hrest.2⟩
    · rintro ⟨hsum, hlabel, hlabels⟩
      have hfit : l.size + s.cells ≤ memorySize := Nat.le_of_add_right_le hsum
      refine ⟨hroom.mpr ⟨hfit, hlabel⟩, ?_⟩
      rw [ih (hsize ▸ hfit), hsize, length_code_add hi]
      exact ⟨hsum, hlabels⟩

end Layout

namespace Source

variable {lines : List (Option Int × List Char)} {ss : List Statement}
  {items : List (Option Int × Item)}

theorem forall₂_items (h : ∀ x ∈ lines, Readable x.2) :
    Forall₂ (fun s x => s.item? = some x.2) (statements lines) (Source.items lines) := by
  induction lines with
  | nil => exact .nil
  | cons x lines ih =>
    obtain ⟨line, raw⟩ := x
    obtain ⟨hx, h⟩ := List.forall_mem_cons.mp h
    rcases readable_iff.mp hx with hp | ⟨s, item, hs, hi⟩
    · have hs : statement? raw = none := by rw [statement?, hp]; rfl
      rw [items_cons_of_none (Assembler.item?_of_blank hp), statements_cons_of_none hs]
      exact ih h
    · rw [items_cons_of_some (by rw [item?, hs, Option.bind_some, hi]), statements_cons_of_some hs]
      exact .cons hi (ih h)

theorem flatMap_references (hf : Forall₂ (fun s x => s.item? = some x.2) ss items) :
    ss.flatMap Statement.references = items.flatMap fun x => x.2.references := by
  induction hf with
  | nil => rfl
  | cons hi _ ih => rw [List.flatMap_cons, List.flatMap_cons, Statement.references_eq hi, ih]

theorem filterMap_binding? (hf : Forall₂ (fun s x => s.item? = some x.2) ss items) :
    ss.filterMap Statement.binding? = items.filterMap fun x => x.2.binding? := by
  induction hf with
  | nil => rfl
  | cons hi _ ih => rw [List.filterMap_cons, List.filterMap_cons, Statement.binding?_eq hi, ih]

/-- What the layout of a source refers to and binds. -/
theorem names_and_binds (h : ∀ x ∈ lines, Readable x.2) (name : String) :
    (name ∈ (Layout.addAll .empty (Source.items lines)).names ↔
      name ∈ (statements lines).flatMap Statement.references) ∧
    ((Layout.addAll .empty (Source.items lines)).Binds name ↔
      name ∈ (statements lines).filterMap Statement.binding?) := by
  have hempty : ¬ Layout.empty.Binds name := by
    rintro ⟨address, ha⟩
    cases ha
  rw [flatMap_references (forall₂_items h), filterMap_binding? (forall₂_items h),
    Layout.names_addAll, Layout.binds_addAll_iff, List.mem_filterMap]
  exact ⟨Iff.rfl, or_iff_right hempty⟩

end Source

namespace Assembler

open Source

variable {a : Assembler} {lines : List (Option Int × List Char)} {file : Option String}

theorem feed_eq_ok_iff (file : Option String) (h : ∀ x ∈ lines, Readable x.2) :
    (∃ b, (new file).feed lines = (b, .ok ())) ↔
      totalSize (statements lines) ≤ memorySize ∧ LabelsFit 0 (statements lines) := by
  have hroom : Layout.empty.HasRoom (items lines) ↔
      0 + totalSize (statements lines) ≤ memorySize ∧ LabelsFit 0 (statements lines) :=
    Layout.hasRoom_iff (forall₂_items h) (by decide)
  rw [Nat.zero_add] at hroom
  rw [← hroom]
  constructor
  · rintro ⟨b, hb⟩
    exact ((holds_new file).room_of_feed hb).2
  · intro hr
    obtain ⟨b, hb, -⟩ := (holds_new file).feed h hr
    exact ⟨b, hb⟩

theorem resolve_of_feed (hb : (new file).feed lines = (a, .ok ())) :
    (a.resolve.2 = .ok () ↔ ∀ name ∈ (statements lines).flatMap Statement.references,
      name ∈ (statements lines).filterMap Statement.binding?) ∧
    ∀ r, a.resolve.2 = .error r → r.name ∈ (statements lines).flatMap Statement.references ∧
      r.name ∉ (statements lines).filterMap Statement.binding? := by
  have hread := ((holds_new file).room_of_feed hb).1
  have himage := ((holds_new file).of_feed hb).1.image
  have hnames := fun name => (names_and_binds hread name).1
  have hbinds := fun name => (names_and_binds hread name).2
  simp only [← hnames, ← hbinds, resolve, himage]
  rw [← Layout.exists_resolve_iff]
  constructor
  · cases (Layout.addAll .empty (items lines)).image.resolve with
    | error r => simp
    | ok image => simp
  · intro r hr
    cases he : (Layout.addAll .empty (items lines)).image.resolve with
    | ok image => simp [he] at hr
    | error r' =>
      simp only [he, Except.error.injEq] at hr
      subst hr
      obtain ⟨hm, hn⟩ := Image.mem_of_resolve_eq_error he
      refine ⟨Layout.name_mem_names hm, ?_⟩
      rintro ⟨address, ha⟩
      rw [Layout.image] at hn
      rw [hn] at ha
      cases ha

/--
A text of readable lines passes exactly if its cells fit into the memory and no label comes after
all of them are code. It is then assembled exactly if every symbol in an operand is bound on some
line, and otherwise fails at one that is not.
-/
theorem assemble_of_readable {text : String} (file : Option String)
    (h : ∀ x ∈ ofText text, Readable x.2) :
    let ss := statements (ofText text)
    let scan := (new file).addLines 1 (Text.lines text.toList)
    let references := ss.flatMap Statement.references
    let bindings := ss.filterMap Statement.binding?
    (scan.2 = .ok () ↔ totalSize ss ≤ memorySize ∧ ∀ before name after,
      ss = before ++ .label name :: after → codeSize before < memorySize) ∧
    (scan.2 = .ok () →
      (((new file).assemble text).2 = .ok () ↔ ∀ name ∈ references, name ∈ bindings) ∧
      (¬ (∀ name ∈ references, name ∈ bindings) → ∃ r : Reference, r.name ∈ references ∧
        r.name ∉ bindings ∧ ((new file).assemble text).2 = .error (r.undefined file))) := by
  intro ss scan references bindings
  have hscan : ∀ b, scan = (b, .ok ()) ↔ (new file).feed (ofText text) = (b, .ok ()) :=
    fun _ => addLines_eq_ok_iff
  constructor
  · have hfeed := feed_eq_ok_iff file h
    simp only [LabelsFit, Nat.zero_add] at hfeed
    rw [← hfeed]
    constructor
    · intro hok
      exact ⟨scan.1, (hscan _).mp (Prod.ext rfl hok)⟩
    · rintro ⟨b, hb⟩
      exact congrArg Prod.snd ((hscan b).mpr hb)
  · intro hok
    have hs : scan = (scan.1, .ok ()) := Prod.ext rfl hok
    have hb := (hscan _).mp hs
    have hfile : scan.1.file = file := ((holds_new file).of_feed hb).2
    obtain ⟨hiff, herror⟩ := resolve_of_feed hb
    rw [assemble_of_addLines hs, hfile]
    cases hr : scan.1.resolve.2 with
    | ok u => exact ⟨iff_of_true rfl (hiff.mp hr), fun hn => absurd (hiff.mp hr) hn⟩
    | error r =>
      obtain ⟨hmem, hnot⟩ := herror r hr
      exact ⟨iff_of_false nofun fun hall => hnot (hall _ hmem), fun _ => ⟨r, hmem, hnot, rfl⟩⟩

theorem assemble_of_readable_countdown :
    let text := ".data n, 3\nloop:\nmov n, %r0\nprnt %r0\ndec %r0\nmov %r0, n\njnz loop\n"
    let ss := statements (ofText text)
    let scan := (new none).addLines 1 (Text.lines text.toList)
    let references := ss.flatMap Statement.references
    let bindings := ss.filterMap Statement.binding?
    (∀ x ∈ ofText text, Readable x.2) ∧
    (scan.2 = .ok () ↔ totalSize ss ≤ memorySize ∧ ∀ before name after,
      ss = before ++ .label name :: after → codeSize before < memorySize) ∧
    (scan.2 = .ok () →
      (((new none).assemble text).2 = .ok () ↔ ∀ name ∈ references, name ∈ bindings) ∧
      (¬ (∀ name ∈ references, name ∈ bindings) → ∃ r : Reference, r.name ∈ references ∧
        r.name ∉ bindings ∧ ((new none).assemble text).2 = .error (r.undefined none))) := by
  intro text
  have h : ∀ x ∈ ofText text, Readable x.2 := by decide +kernel
  exact ⟨h, assemble_of_readable none h⟩

end Assembler

end Nibble
