import Nibble.Proofs.Diagnosis
import Nibble.Proofs.Listed

/-! # Unbound symbols

A command refers to at most one symbol, and the code has the commands in the order of their lines.
The references in the memory therefore stand in the order of their lines too, and the first one
that cannot be resolved has the smallest line of all that cannot.
-/

namespace Nibble

open Text

def Cell.reference? : Cell → Option Reference
  | value _ => none
  | symbol r => some r

theorem Cell.reference?_eq_some_iff {cell : Cell} {r : Reference} :
    cell.reference? = some r ↔ cell = .symbol r := by
  cases cell <;> simp [reference?]

theorem Command.references_cells (c : Command Argument) (address : Int) (line : Option Int) :
    (c.cells address line).filterMap Cell.reference? =
      (c.terms.filterMap Term.name?).map (Reference.mk · line) := by
  cases c with
  | print x | load x r | store r x | jump condition x => cases x <;> rfl
  | _ => rfl

theorem Command.length_references_le (c : Command Argument) :
    (c.terms.filterMap Term.name?).length ≤ 1 := by
  cases c with
  | print x | load x r | store r x | jump condition x =>
    cases x with
    | number n => exact Nat.zero_le 1
    | symbol name => exact Nat.le_refl 1
  | _ => exact Nat.zero_le 1

theorem Statement.length_references_le {s : Statement} {item : Item} (h : s.item? = some item) :
    s.references.length ≤ 1 := by
  rw [references_eq h]
  cases item with
  | command c => exact c.length_references_le
  | _ => exact Nat.zero_le _

namespace Layout

variable {l : Layout}

/-- The references in the code. -/
def references (l : Layout) : List Reference :=
  l.code.filterMap Cell.reference?

theorem references_image (l : Layout) :
    l.image.memory.filterMap Cell.reference? = l.references := by
  have hdata : (l.data.map fun n : Nat => Cell.value n).filterMap Cell.reference? = [] := by
    rw [List.filterMap_map]
    exact List.filterMap_none l.data
  rw [image, List.filterMap_append, List.filterMap_append, hdata, List.append_nil,
    List.filterMap_replicate_of_none (by rfl), List.append_nil, references]

theorem references_add (line : Option Int) (item : Item) :
    (l.add line item).references = l.references ++ item.references.map (Reference.mk · line) := by
  cases item with
  | command c => rw [add, references, List.filterMap_append, Command.references_cells]; rfl
  | _ => exact (List.append_nil _).symm

end Layout

namespace Source

variable {lines : List (Option Int × List Char)} {l : Layout}

/-- The symbols that the operands on numbered lines refer to. -/
def references (lines : List (Option Int × List Char)) : List Reference :=
  (located lines).flatMap fun x => x.2.2.references.map (Reference.mk · x.1)

def bindings (lines : List (Option Int × List Char)) : List String :=
  (statements lines).filterMap Statement.binding?

theorem references_addAll (h : ∀ x ∈ lines, Readable x.2) :
    (l.addAll (items lines)).references = l.references ++ references lines := by
  induction lines generalizing l with
  | nil => exact (List.append_nil _).symm
  | cons x lines ih =>
    obtain ⟨line, raw⟩ := x
    obtain ⟨hx, h⟩ := List.forall_mem_cons.mp h
    rcases readable_iff.mp hx with hp | ⟨s, item, hs, hi⟩
    · have hs : statement? raw = none := by rw [statement?, hp]; rfl
      rw [items_cons_of_none (Assembler.item?_of_blank hp), references, located_cons_of_none hs]
      exact ih h
    · rw [items_cons_of_some (by rw [item?, hs, Option.bind_some, hi]), Layout.addAll_cons, ih h,
        Layout.references_add, references, references, located_cons_of_some hs, List.flatMap_cons,
        List.append_assoc, Statement.references_eq hi]

theorem lines_references_sublist (h : ∀ x ∈ lines, Readable x.2) :
    List.Sublist ((references lines).map Reference.line) ((located lines).map Prod.fst) := by
  induction lines with
  | nil => exact .slnil
  | cons x lines ih =>
    obtain ⟨line, raw⟩ := x
    obtain ⟨hx, h⟩ := List.forall_mem_cons.mp h
    rcases readable_iff.mp hx with hp | ⟨s, item, hs, hi⟩
    · have hs : statement? raw = none := by rw [statement?, hp]; rfl
      rw [references, located_cons_of_none hs]
      exact ih h
    · have hle := Statement.length_references_le hi
      rw [references, located_cons_of_some hs, List.flatMap_cons, List.map_append, List.map_map]
      rcases hr : s.references with _ | ⟨name, _ | ⟨other, names⟩⟩
      · exact (ih h).cons _
      · exact (ih h).cons_cons _
      · rw [hr] at hle
        simp at hle

/-- The references are numbered upward. -/
theorem pairwise_references {start : Nat} {raws : List (List Char)}
    (h : ∀ x ∈ numbered start raws, Readable x.2) :
    (references (numbered start raws)).Pairwise fun r r' =>
      ∃ n n', r.line = some n ∧ r'.line = some n' ∧ n < n' := by
  obtain ⟨numbers, hmap, -, hlt⟩ := exists_numbers_located start raws
  have hcast : (numbers >>= fun n => pure (n : Int)) = numbers.map Nat.cast :=
    List.flatMap_pure_eq_map _ _
  have hsub := lines_references_sublist h
  rw [hmap, hcast, List.map_map] at hsub
  obtain ⟨numbers', hsub', hmap'⟩ := List.sublist_map_iff.mp hsub
  have hlines : ((references (numbered start raws)).map Reference.line).Pairwise fun line line' =>
      ∃ n n', line = some n ∧ line' = some n' ∧ n < n' := by
    rw [hmap', List.pairwise_map]
    exact (hlt.sublist hsub').imp fun hnn => ⟨_, _, rfl, rfl, Int.ofNat_lt.mpr hnn⟩
  exact List.pairwise_map.mp hlines

end Source

theorem Image.exists_of_resolve_eq_error {image : Image} {r : Reference}
    (h : image.resolve = .error r) :
    image.symbols.find? r.name = none ∧ ∃ before after,
      image.memory.filterMap Cell.reference? = before ++ r :: after ∧
        ∀ r' ∈ before, ∃ address, image.symbols.find? r'.name = some address := by
  obtain ⟨before, after, hm, hbefore, hr⟩ := resolve_eq_error_iff.mp h
  refine ⟨hr, before.filterMap Cell.reference?, after.filterMap Cell.reference?, ?_, ?_⟩
  · rw [hm, List.filterMap_append]
    rfl
  · intro r' hr'
    obtain ⟨cell, hc, he⟩ := List.mem_filterMap.mp hr'
    obtain rfl := Cell.reference?_eq_some_iff.mp he
    exact hbefore _ hc

namespace Assembler

open Source

variable {b : Assembler} {file : Option String} {text : String} {raws : List (List Char)}

/-- After lines that pass, the memory has the references of the lines, in order. -/
theorem references_of_addLines (h : (new file).addLines 1 raws = (b, .ok ())) :
    b.image.memory.filterMap Cell.reference? = references (numbered 1 raws) := by
  have hread := ((holds_new file).room_of_feed (addLines_eq_ok_iff.mp h)).1
  rw [(holds_of_addLines h).1.image, Layout.references_image, references_addAll hread]
  rfl

theorem find?_symbols_of_addLines (h : (new file).addLines 1 raws = (b, .ok ())) (name : String) :
    (∃ address, b.image.symbols.find? name = some address) ↔
      name ∈ bindings (numbered 1 raws) := by
  have hread := ((holds_new file).room_of_feed (addLines_eq_ok_iff.mp h)).1
  rw [(holds_of_addLines h).1.image]
  exact (names_and_binds hread name).2

/--
If the lines of a text pass, but an operand is a symbol that none of them binds, then the text is
refused on the first line with such an operand, and for that symbol: it is the only one on its
line. The image is left as it was, with every reference in its memory.
-/
theorem assemble_of_unbound (hscan : (new file).addLines 1 (Text.lines text.toList) = (b, .ok ()))
    (hex : ∃ r ∈ references (ofText text), r.name ∉ bindings (ofText text)) :
    ∃ r ∈ references (ofText text), ∃ n, r.line = some n ∧
      r.name ∉ bindings (ofText text) ∧
      (∀ r' ∈ references (ofText text), r'.name ∉ bindings (ofText text) →
        ∃ n', r'.line = some n' ∧ n ≤ n') ∧
      (∀ r' ∈ references (ofText text), r'.line = r.line → r' = r) ∧
      (new file).assemble text =
        (b, .error (.diagnostic ⟨.undefinedSymbol r.name, ⟨file, some n⟩⟩)) ∧
      b.image.memory.filterMap Cell.reference? = references (ofText text) := by
  have hrefs : _ = references (ofText text) := references_of_addLines hscan
  have hbinds : ∀ name, _ ↔ name ∈ bindings (ofText text) := find?_symbols_of_addLines hscan
  have hread := ((holds_new file).room_of_feed (addLines_eq_ok_iff.mp hscan)).1
  obtain ⟨r, hr⟩ : ∃ r, b.image.resolve = .error r := by
    cases hres : b.image.resolve with
    | error r => exact ⟨r, rfl⟩
    | ok image =>
      obtain ⟨r, hmem, hnot⟩ := hex
      obtain ⟨cell, hc, he⟩ := List.mem_filterMap.mp (hrefs ▸ hmem)
      obtain rfl := Cell.reference?_eq_some_iff.mp he
      exact absurd ((hbinds r.name).mp ((Image.resolve_eq_ok_iff.mp hres).1 _ hc)) hnot
  obtain ⟨hnone, before, after, hsplit, hbefore⟩ := Image.exists_of_resolve_eq_error hr
  obtain ⟨n, hn, -, -⟩ := located_of_resolve hscan hr
  rw [hrefs] at hsplit
  -- the references before it are bound, and those after it are on greater lines
  have hcases : ∀ r' ∈ references (ofText text), r' ∈ before ∨ r' = r ∨ r' ∈ after := by
    intro r' hr'
    simpa [hsplit] using hr'
  have hlt : (before ++ r :: after).Pairwise fun r r' =>
      ∃ n n', r.line = some n ∧ r'.line = some n' ∧ n < n' :=
    hsplit ▸ pairwise_references hread
  obtain ⟨-, hlt_after, hlt_before⟩ := List.pairwise_append.mp hlt
  have hless : ∀ r' ∈ before, ∃ n', r'.line = some n' ∧ n' < n := by
    intro r' hr'
    obtain ⟨n', m, hn', hm, hlt⟩ := hlt_before r' hr' r (.head _)
    obtain rfl : m = n := Option.some.inj (hm.symm.trans hn)
    exact ⟨n', hn', hlt⟩
  have hgreater : ∀ r' ∈ after, ∃ n', r'.line = some n' ∧ n < n' := by
    intro r' hr'
    obtain ⟨m, n', hm, hn', hlt⟩ := (List.pairwise_cons.mp hlt_after).1 r' hr'
    obtain rfl : m = n := Option.some.inj (hm.symm.trans hn)
    exact ⟨n', hn', hlt⟩
  refine ⟨r, by simp [hsplit], n, hn, ?_, ?_, ?_, ?_, hrefs⟩
  · rw [← hbinds, hnone]
    simp
  · intro r' hr' hnot
    rcases hcases r' hr' with hb | rfl | ha
    · exact absurd ((hbinds _).mp (hbefore r' hb)) hnot
    · exact ⟨n, hn, Int.le_refl n⟩
    · obtain ⟨n', hn', hlt⟩ := hgreater r' ha
      exact ⟨n', hn', Int.le_of_lt hlt⟩
  · intro r' hr' hline
    rw [hn] at hline
    rcases hcases r' hr' with hb | rfl | ha
    · obtain ⟨n', hn', hlt⟩ := hless r' hb
      cases hn'.symm.trans hline
      exact absurd hlt (Int.lt_irrefl _)
    · rfl
    · obtain ⟨n', hn', hlt⟩ := hgreater r' ha
      cases hn'.symm.trans hline
      exact absurd hlt (Int.lt_irrefl _)
  · simp only [assemble, hscan, resolve, hr, Reference.undefined, hn, (holds_of_addLines hscan).2]

/-- The second and the third line refer to symbols that are not bound. -/
theorem assemble_of_unbound_second_line :
    let text := "loop:\nmov n, %r0\njnz end\njmp loop\n"
    let file := some "p.asm"
    ∃ b, (new file).addLines 1 (Text.lines text.toList) = (b, .ok ()) ∧
      (∃ r ∈ references (ofText text), r.name ∉ bindings (ofText text)) ∧
      (new file).assemble text =
        (b, .error (.diagnostic ⟨.undefinedSymbol "n", ⟨file, some 2⟩⟩)) ∧
      b.image.memory.filterMap Cell.reference? =
        [⟨"n", some 2⟩, ⟨"end", some 3⟩, ⟨"loop", some 4⟩] := by
  intro text file
  have hok : ((new file).addLines 1 (Text.lines text.toList)).2 = .ok () := by decide +kernel
  have hrefs : references (ofText text) =
      [⟨"n", some 2⟩, ⟨"end", some 3⟩, ⟨"loop", some 4⟩] := by
    decide +kernel
  have hbindings : bindings (ofText text) = ["loop"] := by decide +kernel
  have hex : ∃ r ∈ references (ofText text), r.name ∉ bindings (ofText text) := by
    rw [hrefs, hbindings]
    decide
  obtain ⟨r, hr, n, hn, hnot, hleast, -, hrun, hmemory⟩ :=
    assemble_of_unbound (Prod.ext rfl hok) hex
  refine ⟨_, Prod.ext rfl hok, hex, ?_, hmemory.trans hrefs⟩
  rw [hrefs] at hr hleast
  rw [hbindings] at hnot hleast
  obtain ⟨n', hn', hle⟩ := hleast ⟨"n", some 2⟩ (.head _) (by decide)
  cases hn'
  rcases List.mem_cons.mp hr with rfl | hr
  · cases hn
    exact hrun
  · rcases List.mem_cons.mp hr with rfl | hr
    · cases hn
      exact absurd hle (by decide)
    · obtain rfl := List.mem_singleton.mp hr
      exact absurd (.head _) hnot

end Assembler

end Nibble
