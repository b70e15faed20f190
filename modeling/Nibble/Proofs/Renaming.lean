import Mathlib.Logic.Equiv.Basic
import Nibble.Proofs.FirstFailure
import Nibble.Proofs.Spacing
import Nibble.Proofs.Symbols

/-! # Renaming

The names of the symbols can be replaced by others everywhere in a text. As long as no two become
one, the text is assembled to the same cells, and fails where it failed before.
-/

namespace Nibble

open Text

/-! ## Runs -/

namespace Text

/-- The rest of a text with other runs; those characters of a run that came before are in `run`, the
last one first. -/
def mapRunsAfter (p : Char → Bool) (f : List Char → List Char) (run : List Char) :
    List Char → List Char
  | [] => f run.reverse
  | c :: s =>
    if p c then mapRunsAfter p f (c :: run) s else f run.reverse ++ c :: mapRunsAfter p f [] s

/-- The text with another text in the place of each maximal run of characters that satisfy `p`. -/
def mapRuns (p : Char → Bool) (f : List Char → List Char) (s : List Char) : List Char :=
  mapRunsAfter p f [] s

variable {p : Char → Bool} {f : List Char → List Char} {s gap run : List Char}

theorem mapRuns_nil (hf : f [] = []) : mapRuns p f [] = [] := hf

theorem mapRuns_cons_of_not (hf : f [] = []) {c : Char} (hc : p c = false) :
    mapRuns p f (c :: s) = c :: mapRuns p f s := by
  rw [mapRuns, mapRunsAfter, hc, if_neg Bool.false_ne_true, List.reverse_nil, hf]
  rfl

theorem mapRuns_append_of_forall_not (hf : f [] = []) (hgap : ∀ c ∈ gap, p c = false) :
    mapRuns p f (gap ++ s) = gap ++ mapRuns p f s := by
  induction gap with
  | nil => rfl
  | cons c gap ih =>
    obtain ⟨hc, hgap⟩ := List.forall_mem_cons.mp hgap
    rw [List.cons_append, mapRuns_cons_of_not hf hc, ih hgap, List.cons_append]

theorem mapRuns_eq_self (hf : f [] = []) (hgap : ∀ c ∈ gap, p c = false) :
    mapRuns p f gap = gap := by
  have h := mapRuns_append_of_forall_not (s := []) hf hgap
  rwa [mapRuns_nil hf, List.append_nil] at h

theorem mapRunsAfter_append (hf : f [] = []) (hrun : ∀ c ∈ run, p c)
    (hs : ∀ c ∈ s.head?, p c = false) (init : List Char) :
    mapRunsAfter p f init (run ++ s) = f (init.reverse ++ run) ++ mapRuns p f s := by
  induction run generalizing init with
  | nil =>
    cases s with
    | nil => simp [mapRuns, mapRunsAfter, hf]
    | cons c s => simp [mapRuns, mapRunsAfter, hf, hs c rfl]
  | cons c run ih =>
    obtain ⟨hc, hrun⟩ := List.forall_mem_cons.mp hrun
    rw [List.cons_append, mapRunsAfter, if_pos hc, ih hrun]
    simp

theorem mapRuns_append_of_forall (hf : f [] = []) (hrun : ∀ c ∈ run, p c)
    (hs : ∀ c ∈ s.head?, p c = false) : mapRuns p f (run ++ s) = f run ++ mapRuns p f s :=
  mapRunsAfter_append hf hrun hs []

theorem head?_mapRuns (hf : f [] = []) (hs : ∀ c ∈ s.head?, p c = false) :
    (mapRuns p f s).head? = s.head? := by
  cases s with
  | nil => rw [mapRuns_nil hf]
  | cons c s => rw [mapRuns_cons_of_not hf (hs c rfl), List.head?_cons, List.head?_cons]

theorem mem_mapRunsAfter {q : Char → Prop} (hf : ∀ r, ∀ c ∈ f r, c ∈ r ∨ q c) {c : Char}
    (h : c ∈ mapRunsAfter p f run s) : c ∈ run ∨ c ∈ s ∨ q c := by
  induction s generalizing run with
  | nil => exact (hf _ c h).imp List.mem_reverse.mp .inr
  | cons d s ih =>
    rw [mapRunsAfter] at h
    split at h
    · rcases ih h with hc | hc | hc
      · rcases List.mem_cons.mp hc with rfl | hc
        · exact .inr (.inl (.head _))
        · exact .inl hc
      · exact .inr (.inl (.tail _ hc))
      · exact .inr (.inr hc)
    · rcases List.mem_append.mp h with hc | hc
      · exact (hf _ c hc).imp List.mem_reverse.mp .inr
      · rcases List.mem_cons.mp hc with rfl | hc
        · exact .inr (.inl (.head _))
        · rcases ih hc with hc | hc | hc
          · cases hc
          · exact .inr (.inl (.tail _ hc))
          · exact .inr (.inr hc)

theorem mem_mapRuns {q : Char → Prop} (hf : ∀ r, ∀ c ∈ f r, c ∈ r ∨ q c) {c : Char}
    (h : c ∈ mapRuns p f s) : c ∈ s ∨ q c :=
  (mem_mapRunsAfter hf h).resolve_left List.not_mem_nil

/-- The runs of the new text are the new runs. -/
theorem HasRuns.mapRuns {rs : List (List Char)} (h : HasRuns p s rs) (hf : f [] = [])
    (hrs : ∀ r ∈ rs, f r ≠ [] ∧ ∀ c ∈ f r, p c) : HasRuns p (mapRuns p f s) (rs.map f) := by
  induction h with
  | @nil gap hgap =>
    rw [mapRuns_eq_self hf hgap]
    exact .nil hgap
  | cons hgap hne hrun hrest _ ih =>
    obtain ⟨⟨hne', hrun'⟩, hrs⟩ := List.forall_mem_cons.mp hrs
    rw [mapRuns_append_of_forall_not hf hgap, mapRuns_append_of_forall hf hrun hrest]
    refine .cons hgap hne' hrun' ?_ (ih hrs)
    rwa [head?_mapRuns hf hrest]

end Text

/-! ## Renamed texts -/

namespace Statement

/-- The text with another name in the place of the word that follows characters which satisfy `p`. -/
def renameAfter (s : Name → Name) (p : Char → Bool) (text : List Char) : List Char :=
  text.takeWhile p ++ (renameWord s ((text.dropWhile p).takeWhile isWordChar) ++
    (text.dropWhile p).dropWhile isWordChar)

def renameOperands (s : Name → Name) (text : List Char) : List Char :=
  text.takeWhile isSeparator ++ ((text.dropWhile isSeparator).takeWhile (fun c => !isSeparator c) ++
    mapRuns (fun c => !isSeparator c) (renameToken s)
      ((text.dropWhile isSeparator).dropWhile fun c => !isSeparator c))

/-- The line with other names for the symbols in its statement. -/
def renameLine (s : Name → Name) (raw : List Char) : List Char :=
  match Source.statement? raw with
  | some (.data _ _) =>
    let text := raw.dropWhile isBlank
    raw.takeWhile isBlank ++ (text.take 5 ++ renameAfter s isAsciiBlank (text.drop 5))
  | some (.label _) => renameAfter s isBlank raw
  | some (.instruction _ _) => renameOperands s (stripComment raw) ++ raw.dropWhile (· ≠ '#')
  | none => raw

end Statement

/-- The text with other names for the symbols on its lines. -/
def Source.rename (s : Name → Name) (text : String) : String :=
  join ((lines text.toList).map (Statement.renameLine s))

/-- Whether a name stands behind a dollar sign in an operand of a text. -/
def Source.HasDollar (text : String) (x : Name) : Prop :=
  isNumeral x.text.toList = false ∧ ∃ raw ∈ lines text.toList, ∃ mnemonic tokens,
    statement? raw = some (.instruction mnemonic tokens) ∧ "$" ++ x.text ∈ tokens

/-! ## Lines -/

namespace Statement

variable {s : Name → Name} {raw b w gap rest : List Char} {p : Char → Bool}

theorem renameAfter_append (hgap : ∀ c ∈ gap, p c) (hw : isWord w)
    (hp : ∀ c, isWordChar c → p c = false) (hrest : ∀ c ∈ rest.head?, isWordChar c = false) :
    renameAfter s p (gap ++ (w ++ rest)) = gap ++ (renameWord s w ++ rest) := by
  obtain ⟨hlead, htext⟩ := span_append hgap fun c hc => hp c (head?_of_isWord hw rest c hc)
  obtain ⟨hword, hafter⟩ := span_append (fun c => isWordChar_of_mem hw) hrest
  rw [renameAfter, hlead, htext, hword, hafter]

theorem IsBody.exists_frame (h : IsBody raw b) : ∃ lead tail, raw = lead ++ (b ++ tail) ∧
    (∀ c ∈ lead, isBlank c) ∧ ∀ b' : List Char, (∀ c ∈ b'.head?, isBlank c = false) →
      '#' ∉ b' → (∀ c ∈ b'.getLast?, isBlank c = false) → IsBody (lead ++ (b' ++ tail)) b' := by
  cases h with
  | @intro lead _ trail comment hlead hhead hplain hlast htrail hcomment =>
    refine ⟨lead, trail ++ comment, by simp, hlead, ?_⟩
    intro b' hhead' hplain' hlast'
    simpa using IsBody.intro hlead hhead' hplain' hlast' htrail hcomment

theorem IsBody.parse_eq {result : Except Fault (Option Statement)} (h : IsBody raw b)
    (hr : Reading b result) : parse raw = result := by
  rw [h.eq_body] at hr
  exact hr.parse_eq

theorem not_isBlank_of_isWordChar {c : Char} (h : isWordChar c) : isBlank c = false :=
  Bool.eq_false_iff.mpr (not_isBlank_of_isSeparator (isSeparator_of_isWordChar h))

theorem sign_not_mem_of_isWord (hw : isWord w) : '#' ∉ w := fun h =>
  ((isToken_of_isWord hw).plain '#' h).2 rfl

theorem IsDirective.sign_not_mem {name digits : List Char} (h : IsDirective name digits b) :
    '#' ∉ b := by
  cases h with
  | intro hne hgap hname hbefore hafter hdigits =>
    intro hsign
    simp only [List.mem_cons, List.mem_append, Char.reduceEq, false_or] at hsign
    rcases hsign with h | h | h | h | h
    · cases hgap '#' h
    · exact sign_not_mem_of_isWord hname h
    · cases hbefore '#' h
    · cases hafter '#' h
    · exact sign_not_mem_of_isWord (isWord_of_isNumeral hdigits) h

theorem IsDirective.getLast? {name digits : List Char} (h : IsDirective name digits b) :
    ∀ c ∈ b.getLast?, isBlank c = false := by
  cases h with
  | intro hne hgap hname hbefore hafter hdigits =>
    have hword := isWord_of_isNumeral hdigits
    obtain ⟨init, last, rfl⟩ :=
      (List.eq_nil_or_concat digits).resolve_left (isToken_of_isWord hword).ne_nil
    have hmem : last ∈ init.concat last := by simp
    have hlast := not_isBlank_of_isWordChar (isWordChar_of_mem hword hmem)
    simp [List.getLast?_cons, List.getLast?_append, hlast]

theorem parse_renameLine_label {name : String} (hp : parse raw = .ok (some (.label name))) :
    parse (renameLine s raw) = .ok (some (.label (Name.map s name))) := by
  have hline : renameLine s raw = renameAfter s isBlank raw := by
    rw [renameLine, Source.statement?_eq_some_iff.mpr hp]
  have hreading := reading_iff.mpr hp
  have hbody := isBody_body raw
  generalize body raw = b at hreading hbody
  cases hreading with
  | @label w hw =>
    obtain ⟨lead, tail, rfl, hlead, hreplace⟩ := hbody.exists_frame
    have hw' : isWord (renameWord s w) := isWord_renameWord hw
    have hcolon : ∀ c ∈ (':' :: tail).head?, isWordChar c = false := by
      rintro c ⟨⟩
      rfl
    have hnew : IsBody (lead ++ (renameWord s w ++ [':'] ++ tail)) (renameWord s w ++ [':']) := by
      apply hreplace
      · intro c hc
        exact not_isBlank_of_isWordChar (head?_of_isWord hw' _ c hc)
      · simpa using sign_not_mem_of_isWord hw'
      · simp; rfl
    rw [List.append_assoc, List.singleton_append] at hline hnew
    rw [renameAfter_append hlead hw (fun c => not_isBlank_of_isWordChar) hcolon] at hline
    rw [List.append_assoc, List.singleton_append, hline, hnew.parse_eq (.label hw'), renameWord,
      String.ofList_toList]

theorem IsDirective.exists_rename {digits : List Char} (h : IsDirective w digits b) :
    ∃ b', IsDirective (renameWord s w) digits b' ∧ ∀ tail, (b ++ tail).take 5 ++
      renameAfter s isAsciiBlank ((b ++ tail).drop 5) = b' ++ tail := by
  cases h with
  | @intro gap before after hne hgap hw hbefore hafter hdigits =>
    refine ⟨_, .intro hne hgap (isWord_renameWord hw) hbefore hafter hdigits, fun tail => ?_⟩
    have hrest := head?_of_blanks (after ++ digits ++ tail) hbefore
    have hrename := renameAfter_append (s := s) hgap hw
      (fun c => not_isAsciiBlank_of_isWordChar) hrest
    simp only [List.append_assoc] at hrename
    simp [hrename]

theorem parse_renameLine_data {name : String} {value : Nat}
    (hp : parse raw = .ok (some (.data name value))) :
    parse (renameLine s raw) = .ok (some (.data (Name.map s name) value)) := by
  have hline : renameLine s raw = raw.takeWhile isBlank ++ ((raw.dropWhile isBlank).take 5 ++
      renameAfter s isAsciiBlank ((raw.dropWhile isBlank).drop 5)) := by
    rw [renameLine, Source.statement?_eq_some_iff.mpr hp]
  have hreading := reading_iff.mpr hp
  have hbody := isBody_body raw
  generalize body raw = b at hreading hbody
  cases hreading with
  | @data _ w zeros _ h hlen hvalue =>
    obtain ⟨lead, tail, rfl, hlead, hreplace⟩ := hbody.exists_frame
    obtain ⟨b', hb', hrename⟩ := h.exists_rename (s := s)
    have hdot : ∀ c ∈ (b ++ tail).head?, isBlank c = false := by
      rw [List.head?_append, h.head?]
      rintro c ⟨⟩
      rfl
    have hdot' : ∀ c ∈ b'.head?, isBlank c = false := by
      rw [hb'.head?]
      rintro c ⟨⟩
      rfl
    have hnew := hreplace b' hdot' hb'.sign_not_mem hb'.getLast?
    obtain ⟨htake, hdrop⟩ := span_append hlead hdot
    rw [htake, hdrop, hrename] at hline
    rw [hline, hnew.parse_eq (.data hb' hlen hvalue), renameWord, String.ofList_toList]

theorem isToken_of_hasRuns {rs : List (List Char)}
    (h : HasRuns (fun c => !isSeparator c) raw rs) (hplain : '#' ∉ raw) : ∀ r ∈ rs, IsToken r := by
  induction h with
  | nil => nofun
  | @cons gap run rest runs hgap hne hrun hrest _ ih =>
    rw [List.mem_append, List.mem_append] at hplain
    refine List.forall_mem_cons.mpr ⟨⟨hne, ?_⟩, ih fun h => hplain (.inr (.inr h))⟩
    intro c hc
    refine ⟨by simpa using hrun c hc, ?_⟩
    rintro rfl
    exact hplain (.inr (.inl hc))

theorem renameToken_nil : renameToken s [] = [] := rfl

theorem renameOperands_append {first tail : List Char} (hgap : ∀ c ∈ gap, isSeparator c)
    (hne : first ≠ []) (hfirst : ∀ c ∈ first, (!isSeparator c) = true)
    (htail : ∀ c ∈ tail.head?, (!isSeparator c) = false) :
    renameOperands s (gap ++ (first ++ tail)) =
      gap ++ (first ++ mapRuns (fun c => !isSeparator c) (renameToken s) tail) := by
  have hhead : ∀ c ∈ (first ++ tail).head?, isSeparator c = false := by
    intro c hc
    rw [List.head?_append_of_ne_nil _ hne] at hc
    simpa using hfirst c (List.mem_of_mem_head? hc)
  obtain ⟨hlead, htext⟩ := span_append hgap hhead
  obtain ⟨hfirst, hrest⟩ := span_append hfirst htail
  rw [renameOperands, hlead, htext, hfirst, hrest]

theorem mem_renameOperands {text : List Char} {c : Char} (h : c ∈ renameOperands s text) :
    c ∈ text ∨ isWordChar c := by
  rcases List.mem_append.mp h with h | h
  · exact .inl ((List.takeWhile_sublist _).mem h)
  · rcases List.mem_append.mp h with h | h
    · exact .inl ((List.dropWhile_sublist _).mem ((List.takeWhile_sublist _).mem h))
    · have hmem := mem_mapRuns (fun r c hc => (renamed_renameToken s r).mem hc) h
      refine hmem.imp_left fun hc => ?_
      exact (List.dropWhile_sublist _).mem ((List.dropWhile_sublist _).mem hc)

section Operands

variable {text comment first : List Char} {rs : List (List Char)}

theorem hasRuns_renameOperands (h : HasRuns (fun c => !isSeparator c) text (first :: rs))
    (hplain : '#' ∉ text) :
    HasRuns (fun c => !isSeparator c) (renameOperands s text) (first :: rs.map (renameToken s)) := by
  have htokens := isToken_of_hasRuns h hplain
  cases h with
  | @cons gap _ tail _ hgap hne hfirst htail h =>
    rw [renameOperands_append (by simpa using hgap) hne hfirst htail]
    refine .cons hgap hne hfirst ?_ (h.mapRuns renameToken_nil ?_)
    · rwa [head?_mapRuns renameToken_nil htail]
    · intro r hr
      have htoken := (renamed_renameToken s r).isToken (htokens r (.tail _ hr))
      exact ⟨htoken.ne_nil, fun c hc => by simpa using (htoken.plain c hc).1⟩

theorem renameOperands_of_no_operands
    (h : HasRuns (fun c => !isSeparator c) text [first]) : renameOperands s text = text := by
  cases h with
  | @cons gap _ tail _ hgap hne hfirst htail h =>
    rw [renameOperands_append (by simpa using hgap) hne hfirst htail]
    cases h with
    | nil hgap' => rw [mapRuns_eq_self renameToken_nil hgap']

/-- Separators after the mnemonic set an operand apart, which ends before separators or a comment. -/
theorem around_append {gap' rest : List Char} (hplain : '#' ∉ gap ++ (first ++ gap'))
    (hne : first ≠ []) (hfirst : ∀ c ∈ first, (!isSeparator c) = true) (hne' : gap' ≠ [])
    (hgap' : ∀ c ∈ gap', (!isSeparator c) = false)
    (hrest : ∀ c ∈ rest.head?, (!isSeparator c) = false)
    (hcomment : ∀ c ∈ comment.head?, c = '#') :
    Around (gap ++ (first ++ gap')) (rest ++ comment) where
  uncommented := hplain
  mnemonic := ⟨first.head hne, by simp, by simpa using hfirst _ (List.head_mem hne)⟩
  separated := by
    refine ⟨gap'.getLast hne', ?_, by simpa using hgap' _ (List.getLast_mem hne')⟩
    simp [List.getLast?_append, List.getLast?_eq_some_getLast hne']
  ended := by
    intro c hc
    cases rest with
    | nil => exact .inr (hcomment c hc)
    | cons d rest =>
      left
      simpa using hrest c hc

theorem exists_around {second : List Char} (hplain : '#' ∉ text)
    (hcomment : ∀ c ∈ comment.head?, c = '#')
    (h : HasRuns (fun c => !isSeparator c) text (first :: second :: rs)) :
    ∃ before after after', text = before ++ second ++ after ∧
      renameOperands s text = before ++ renameToken s second ++ after' ∧
      Around before (after ++ comment) ∧ Around before (after' ++ comment) := by
  cases h with
  | @cons gap _ tail _ hgap hne hfirst htail h =>
    rw [renameOperands_append (by simpa using hgap) hne hfirst htail]
    cases h with
    | @cons gap' _ rest _ hgap' hne' hsecond hrest h =>
      rw [mapRuns_append_of_forall_not renameToken_nil hgap',
        mapRuns_append_of_forall renameToken_nil hsecond hrest]
      have hapart : gap' ≠ [] := by
        rintro rfl
        rw [List.nil_append, List.head?_append_of_ne_nil _ hne'] at htail
        have hsep := htail _ (List.head_mem_head? hne')
        rw [hsecond _ (List.head_mem hne')] at hsep
        cases hsep
      have hplain' : '#' ∉ gap ++ (first ++ gap') := by
        simp only [List.mem_append, not_or] at hplain ⊢
        exact ⟨hplain.1, hplain.2.1, hplain.2.2.1⟩
      have hrest' : ∀ c ∈ (mapRuns (fun c => !isSeparator c) (renameToken s) rest).head?,
          (!isSeparator c) = false := by
        rwa [head?_mapRuns renameToken_nil hrest]
      refine ⟨gap ++ (first ++ gap'), rest, mapRuns (fun c => !isSeparator c) (renameToken s) rest,
        by simp, by simp, ?_, ?_⟩
      · exact around_append hplain' hne hfirst hapart hgap' hrest hcomment
      · exact around_append hplain' hne hfirst hapart hgap' hrest' hcomment

theorem parse_renameOperands {mnemonic : String} {operands : List String} (hplain : '#' ∉ text)
    (hcomment : ∀ c ∈ comment.head?, c = '#')
    (hp : parse (text ++ comment) = .ok (some (.instruction mnemonic operands))) :
    ∃ rs : List (List Char), operands = rs.map String.ofList ∧
      parse (renameOperands s text ++ comment) =
        .ok (some (.instruction mnemonic ((rs.map (renameToken s)).map String.ofList))) := by
  obtain ⟨hdot, -, first, rs, hruns, hmnemonic, hoperands⟩ := parse_eq_instruction_iff.mp hp
  rw [runs_body, stripComment_append hplain hcomment, runs_eq_iff] at hruns
  refine ⟨rs, hoperands, ?_⟩
  cases rs with
  | nil =>
    subst hoperands
    rwa [renameOperands_of_no_operands hruns]
  | cons second rs =>
    have hplain' : '#' ∉ renameOperands s text := fun h =>
      (mem_renameOperands h).elim hplain (by decide)
    have hruns' := hasRuns_renameOperands (s := s) hruns hplain
    obtain ⟨before, after, after', htext, htext', haround, haround'⟩ :=
      exists_around (s := s) hplain hcomment hruns
    have htoken := isToken_of_hasRuns hruns hplain second (.tail _ (.head _))
    have htoken' := (renamed_renameToken s second).isToken htoken
    apply parse_eq_instruction_iff.mpr
    refine ⟨?_, ?_, first, (second :: rs).map (renameToken s), ?_, hmnemonic, rfl⟩
    · rw [htext, List.append_assoc, haround.head?_body htoken] at hdot
      rwa [htext', List.append_assoc, haround'.head?_body htoken']
    · rw [htext', List.append_assoc]
      exact haround'.labelName?_body htoken'
    · rw [runs_body, stripComment_append hplain' hcomment]
      exact hruns'.runs_eq

end Operands

theorem parse_renameLine_instruction {mnemonic : String} {operands : List String}
    (hp : parse raw = .ok (some (.instruction mnemonic operands))) :
    ∃ rs : List (List Char), operands = rs.map String.ofList ∧ parse (renameLine s raw) =
      .ok (some (.instruction mnemonic ((rs.map (renameToken s)).map String.ofList))) := by
  have hline : renameLine s raw =
      renameOperands s (stripComment raw) ++ raw.dropWhile (· ≠ '#') := by
    rw [renameLine, Source.statement?_eq_some_iff.mpr hp]
  obtain ⟨hraw, hplain, hcomment⟩ := span_split (fun c => decide (c ≠ '#')) raw
  rw [hline]
  apply parse_renameOperands
  · intro hsign
    simpa using hplain '#' hsign
  · simpa using hcomment
  · rwa [stripComment, ← hraw]

theorem mem_renameAfter {text : List Char} {c : Char} (h : c ∈ renameAfter s p text) :
    c ∈ text ∨ isWordChar c := by
  rcases List.mem_append.mp h with h | h
  · exact .inl ((List.takeWhile_sublist _).mem h)
  · rcases List.mem_append.mp h with h | h
    · refine (mem_renameWord h).imp_left fun hc => ?_
      exact (List.dropWhile_sublist _).mem ((List.takeWhile_sublist _).mem hc)
    · exact .inl ((List.dropWhile_sublist _).mem ((List.dropWhile_sublist _).mem h))

theorem mem_renameLine {c : Char} (h : c ∈ renameLine s raw) : c ∈ raw ∨ isWordChar c := by
  unfold renameLine at h
  split at h
  · rcases List.mem_append.mp h with h | h
    · exact .inl ((List.takeWhile_sublist _).mem h)
    · rcases List.mem_append.mp h with h | h
      · exact .inl ((List.dropWhile_sublist _).mem ((List.take_sublist _ _).mem h))
      · refine (mem_renameAfter h).imp_left fun hc => ?_
        exact (List.dropWhile_sublist _).mem ((List.drop_sublist _ _).mem hc)
  · exact mem_renameAfter h
  · rcases List.mem_append.mp h with h | h
    · exact (mem_renameOperands h).imp_left fun hc => (List.takeWhile_sublist _).mem hc
    · exact .inl ((List.dropWhile_sublist _).mem h)
  · exact .inl h

end Statement

/-! ## Texts -/

namespace Source

open Statement

variable {τ : Translation} {s : Name → Name} {raw raw' : List Char} {raws : List (List Char)}

theorem lines_rename (s : Name → Name) (text : String) :
    lines (rename s text).toList = (lines text.toList).map (renameLine s) := by
  apply lines_join
  · have hpos := length_lines_pos text.toList
    simpa using List.ne_nil_of_length_pos hpos
  · intro raw' hraw' hfeed
    obtain ⟨raw, hraw, rfl⟩ := List.mem_map.mp hraw'
    exact (mem_renameLine hfeed).elim (not_mem_of_mem_lines hraw) (by decide)

/-- A renamed line holds the statement under the other names. -/
theorem translates_renameLine (hs : Function.Injective s) {s? : Option Statement}
    (hp : parse raw = .ok s?)
    (hdollar : ∀ mnemonic tokens, statement? raw = some (.instruction mnemonic tokens) →
      ∀ x : Name, isNumeral x.text.toList = false → "$" ++ x.text ∈ tokens →
        isNumeral (s x).text.toList = false) :
    Translates (.renaming s hs) raw (renameLine s raw) := by
  cases s? with
  | none =>
    have hline : renameLine s raw = raw := by
      rw [renameLine, statement?, hp]
      rfl
    exact .blank hp (by rwa [hline])
  | some statement =>
    cases statement with
    | data name value => exact .statement hp (parse_renameLine_data hp) (.data name value)
    | label name => exact .statement hp (parse_renameLine_label hp) (.label name)
    | instruction mnemonic tokens =>
      obtain ⟨rs, rfl, hp'⟩ := parse_renameLine_instruction (s := s) hp
      refine .statement hp hp' (.instruction mnemonic ?_)
      rw [List.map_map, List.forall₂_map_left_iff, List.forall₂_map_right_iff, List.forall₂_same]
      intro token htoken
      apply (renamed_renameToken s token).isToken_renaming hs
      rintro w rfl hw hn
      obtain ⟨x, hx⟩ : ∃ x : Name, x.text = String.ofList w := ⟨⟨String.ofList w, by simpa⟩, rfl⟩
      have hmem : "$" ++ x.text ∈ rs.map String.ofList := by
        refine List.mem_map.mpr ⟨_, htoken, String.toList_inj.mp ?_⟩
        simp [hx]
      have hnumeral := hdollar mnemonic _ (statement?_eq_some_iff.mpr hp) x (by simpa [hx]) hmem
      rwa [← Name.map_text, hx] at hnumeral

theorem Translates.trimEnd (h : Translates τ raw raw') :
    Translates τ (trimEnd (· = '\r') raw) (trimEnd (· = '\r') raw') := by
  cases h with
  | blank h h' => exact .blank ((parse_trimEnd raw).trans h) ((parse_trimEnd raw').trans h')
  | statement h h' hs =>
    exact .statement ((parse_trimEnd raw).trans h) ((parse_trimEnd raw').trans h') hs
  | fault h h' => exact .fault ((parse_trimEnd raw).trans h) ((parse_trimEnd raw').trans h')

theorem translateFrom_map {f : List Char → List Char} (hline : ∀ n, τ.line n = n)
    (h : ∀ raw ∈ raws, Translates τ raw (f raw)) (n : Int) :
    TranslateFrom τ n raws n (raws.map f) := by
  induction raws generalizing n with
  | nil => exact .nil n n
  | cons raw raws ih =>
    obtain ⟨hraw, hraws⟩ := List.forall_mem_cons.mp h
    exact .line (hline n) hraw.trimEnd (ih hraws (n + 1))

end Source

namespace Assembler

open Source

/-- Whether two results have the same ending, image and warnings up to the names of symbols. -/
structure SameUpTo (f : String → String) (x x' : Result Failure) : Prop where
  passes : x'.2 = .ok () ↔ x.2 = .ok ()
  image : x.2 = .ok () →
    x'.1.image = { x.1.image with symbols := x.1.image.symbols.rename f }
  diagnostic : ∀ c p, x.2 = .error (.diagnostic ⟨c, p⟩) →
    x'.2 = .error (.diagnostic ⟨c.rename f, p⟩) ∧ (c.rename f).kind = c.kind
  defect : ∀ d, x.2 = .error (.defect d) → x'.2 = .error (.defect d)
  warnings : x'.1.warnings = x.1.warnings.map fun w => { w with name := f w.name }

variable {s : Name → Name} {text : String}

/--
A text that can be read is assembled alike under other names for its symbols, if no two names become
one and none that stands behind a dollar sign becomes a numeral: to the same cells and with the same
addresses, or else to the same failure.
-/
theorem sameUpTo_of_rename (hs : Function.Injective s)
    (hparse : ∀ raw ∈ lines text.toList, ∃ s?, Statement.parse raw = .ok s?)
    (hdollar : ∀ x, HasDollar text x → isNumeral (s x).text.toList = false)
    (file : Option String) : SameUpTo (Name.map s) ((new file).assemble text)
      ((new file).assemble (rename s text)) := by
  have hlines : TranslateFrom (.renaming s hs) 1 (lines text.toList) 1
      (lines (rename s text).toList) := by
    rw [lines_rename]
    refine translateFrom_map (fun _ => rfl) (fun raw hraw => ?_) 1
    obtain ⟨s?, hp⟩ := hparse raw hraw
    apply translates_renameLine hs hp
    intro mnemonic tokens hstatement x hx hmem
    exact hdollar x ⟨hx, raw, hraw, mnemonic, tokens, hstatement, hmem⟩
  have htranslates := (translates_new file).assemble hlines
  constructor
  · exact htranslates.passes_iff
  · intro hok
    exact htranslates.image_of_assemble (Prod.ext rfl hok)
  · intro c p hc
    refine ⟨?_, c.kind_rename _⟩
    rw [htranslates.ending, hc]
    exact congrArg (fun p => Except.error (Failure.diagnostic ⟨_, p⟩)) p.move_id
  · intro d hd
    rw [htranslates.ending, hd]
    rfl
  · rw [htranslates.assembler.warnings]
    congr 1
    funext w
    exact congrArg (Warning.mk _ _) w.place.move_id

/-- One name becomes a numeral, and another one, which stands behind a dollar sign, a mnemonic. -/
theorem sameUpTo_of_rename_swap :
    let text := "n:\nx: # n\nmov %r0, n\njmp $x"
    let s := fun y : Name => Equiv.swap ⟨"x", rfl⟩ ⟨"mov", rfl⟩ (Equiv.swap ⟨"n", rfl⟩ ⟨"15", rfl⟩ y)
    (Function.Injective s ∧ (∀ raw ∈ lines text.toList, ∃ s?, Statement.parse raw = .ok s?) ∧
        ∀ x, HasDollar text x → isNumeral (s x).text.toList = false) ∧
      rename s text = "15:\nmov: # n\nmov %r0, 15\njmp $mov" ∧
      SameUpTo (Name.map s) ((new none).assemble text) ((new none).assemble (rename s text)) := by
  intro text s
  have hs : Function.Injective s := (Equiv.injective _).comp (Equiv.injective _)
  have hlines : lines text.toList =
      ["n:".toList, "x: # n".toList, "mov %r0, n".toList, "jmp $x".toList] := by
    decide +kernel
  have hn : Statement.parse "n:".toList = .ok (some (.label "n")) := by decide +kernel
  have hx : Statement.parse "x: # n".toList = .ok (some (.label "x")) := by decide +kernel
  have hmove : Statement.parse "mov %r0, n".toList =
      .ok (some (.instruction "mov" ["%r0", "n"])) := by
    decide +kernel
  have hjump : Statement.parse "jmp $x".toList = .ok (some (.instruction "jmp" ["$x"])) := by
    decide +kernel
  have hparse : ∀ raw ∈ lines text.toList, ∃ s?, Statement.parse raw = .ok s? := by
    rw [hlines]
    simp only [List.forall_mem_cons]
    exact ⟨⟨_, hn⟩, ⟨_, hx⟩, ⟨_, hmove⟩, ⟨_, hjump⟩, nofun⟩
  have hdollar : ∀ x, HasDollar text x → isNumeral (s x).text.toList = false := by
    rintro x ⟨-, raw, hraw, mnemonic, tokens, hstatement, hmem⟩
    rw [statement?_eq_some_iff] at hstatement
    have hhead : ∀ token, "$" ++ x.text = token → token.toList.head? = some '$' := by
      rintro token rfl
      simp
    have htoken : "$" ++ x.text = "$x" := by
      simp only [hlines, List.mem_cons, List.not_mem_nil, or_false] at hraw
      rcases hraw with rfl | rfl | rfl | rfl
      · cases hn.symm.trans hstatement
      · cases hx.symm.trans hstatement
      · cases hmove.symm.trans hstatement
        simp only [List.mem_cons, List.not_mem_nil, or_false] at hmem
        rcases hmem with h | h
        · exact absurd (hhead _ h) (by decide)
        · exact absurd (hhead _ h) (by decide)
      · cases hjump.symm.trans hstatement
        exact List.mem_singleton.mp hmem
    obtain rfl : x = ⟨"x", rfl⟩ := by
      ext1
      have hlist := congrArg String.toList htoken
      rw [String.toList_append] at hlist
      exact String.toList_inj.mp (List.cons.inj hlist).2
    decide +kernel
  exact ⟨⟨hs, hparse, hdollar⟩, by decide +kernel, sameUpTo_of_rename hs hparse hdollar none⟩

end Assembler

end Nibble
