/-! # Lines and runs

A line feed, and nothing else, ends a line of a text. The tokens of a line and the numerals of a
text are maximal runs of characters of one kind.
-/

namespace Nibble.Text

def lines (s : List Char) : List (List Char) :=
  s.splitOn '\n'

/-- The maximal runs of characters that satisfy `p`, in order. -/
def runs (p : Char → Bool) (s : List Char) : List (List Char) :=
  (s.splitOnP fun c => !p c).filter fun piece => !piece.isEmpty

/-- A carriage return, alone or before a line feed, becomes a line feed. -/
def unifyLineEnds : List Char → List Char
  | '\r' :: '\n' :: rest => '\n' :: unifyLineEnds rest
  | '\r' :: rest => '\n' :: unifyLineEnds rest
  | c :: rest => c :: unifyLineEnds rest
  | [] => []

theorem runs_eq_nil_iff {p : Char → Bool} {s : List Char} :
    runs p s = [] ↔ ∀ c ∈ s, p c = false := by
  have hpieces : runs p s = [] ↔ ∀ piece ∈ s.splitOnP (fun c => !p c), piece = [] := by
    simp [runs, List.filter_eq_nil_iff]
  rw [hpieces]
  clear hpieces
  induction s with
  | nil => simp
  | cons c s ih =>
    rw [List.splitOnP_cons_eq_if_modifyHead, List.forall_mem_cons (a := c)]
    cases hc : p c with
    | false => simpa using ih
    | true =>
      obtain ⟨piece, pieces, hs⟩ :=
        List.exists_cons_of_ne_nil (List.splitOnP_ne_nil (fun c => !p c) s)
      simp [hs]

theorem runs_append_of_forall_not {p : Char → Bool} {gap : List Char}
    (h : ∀ c ∈ gap, p c = false) (s : List Char) : runs p (gap ++ s) = runs p s := by
  induction gap with
  | nil => rfl
  | cons c gap ih =>
    obtain ⟨hc, h⟩ := List.forall_mem_cons.mp h
    rw [← ih h, List.cons_append, runs, runs, List.splitOnP_cons_eq_if_modifyHead]
    simp [hc]

/-- Characters of one kind are a run, if a character of another kind follows or none at all. -/
theorem runs_append_of_forall {p : Char → Bool} {run s : List Char} (hne : run ≠ [])
    (hrun : ∀ c ∈ run, p c) (hs : ∀ c ∈ s.head?, p c = false) :
    runs p (run ++ s) = run :: runs p s := by
  have hrun : ∀ c ∈ run, (!p c) = false := fun c hc => by simp [hrun c hc]
  cases s with
  | nil =>
    rw [List.append_nil, runs, List.splitOnP_eq_singleton hrun]
    simp [hne, runs]
  | cons c s =>
    have hc : (!p c) = true := by simpa using hs c rfl
    rw [runs, List.splitOnP_append_cons_of_forall_mem hrun c hc]
    simp [hne, runs, List.splitOnP_cons_eq_if_modifyHead, hc]

theorem length_lines_pos (s : List Char) : 0 < (lines s).length :=
  List.length_pos_iff.2 (List.splitOnP_ne_nil _ s)

end Nibble.Text
