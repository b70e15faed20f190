import Nibble.Proofs.Diagnosis
import Nibble.Proofs.Numeral
import Nibble.Proofs.Tokens

/-! # The grammar of lines

What a line holds is said by its shape alone: where the comment begins, how a directive is spelled,
what a label looks like, and which rows of characters are the tokens of an instruction. Reading
accepts exactly the lines of this grammar, and refuses the others in the way it says.
-/

namespace Nibble

open Text

/-! ## Scanning -/

namespace Text

variable {p : Char → Bool} {s a b : List Char}

theorem span_append (ha : ∀ c ∈ a, p c) (hb : ∀ c ∈ b.head?, p c = false) :
    (a ++ b).takeWhile p = a ∧ (a ++ b).dropWhile p = b := by
  have hstop : b.takeWhile p = [] ∧ b.dropWhile p = b := by
    cases b with
    | nil => exact ⟨rfl, rfl⟩
    | cons c b => simp [hb c rfl]
  rw [List.takeWhile_append_of_pos ha, List.dropWhile_append_of_pos ha, hstop.1, hstop.2,
    List.append_nil]
  exact ⟨rfl, rfl⟩

theorem span_split (p : Char → Bool) (s : List Char) :
    s = s.takeWhile p ++ s.dropWhile p ∧ (∀ c ∈ s.takeWhile p, p c) ∧
      ∀ c ∈ (s.dropWhile p).head?, p c = false := by
  refine ⟨List.takeWhile_append_dropWhile.symm, fun c hc => List.mem_takeWhile_imp hc, ?_⟩
  intro c hc
  have hnot := List.head?_dropWhile_not p s
  rw [hc] at hnot
  exact hnot

/--
The maximal runs of characters of a kind that a text holds, in order. What stands around and
between them is of another kind.
-/
inductive HasRuns (p : Char → Bool) : List Char → List (List Char) → Prop
  | nil {gap : List Char} (hgap : ∀ c ∈ gap, p c = false) : HasRuns p gap []
  | cons {gap run rest : List Char} {runs : List (List Char)} (hgap : ∀ c ∈ gap, p c = false)
    (hne : run ≠ []) (hrun : ∀ c ∈ run, p c) (hrest : ∀ c ∈ rest.head?, p c = false)
    (h : HasRuns p rest runs) : HasRuns p (gap ++ (run ++ rest)) (run :: runs)

theorem HasRuns.runs_eq {rs : List (List Char)} (h : HasRuns p s rs) : runs p s = rs := by
  induction h with
  | nil hgap => exact runs_eq_nil_iff.mpr hgap
  | cons hgap hne hrun hrest _ ih =>
    rw [runs_append_of_forall_not hgap, runs_append_of_forall hne hrun hrest, ih]

theorem HasRuns.append {gap : List Char} {rs : List (List Char)} (hgap : ∀ c ∈ gap, p c = false)
    (h : HasRuns p s rs) : HasRuns p (gap ++ s) rs := by
  cases h with
  | nil hgap' => exact .nil (List.forall_mem_append.mpr ⟨hgap, hgap'⟩)
  | cons hgap' hne hrun hrest h =>
    rw [← List.append_assoc]
    exact .cons (List.forall_mem_append.mpr ⟨hgap, hgap'⟩) hne hrun hrest h

theorem exists_hasRuns (p : Char → Bool) (s : List Char) : ∃ rs, HasRuns p s rs := by
  induction s with
  | nil => exact ⟨[], .nil nofun⟩
  | cons c s ih =>
    obtain ⟨rs, h⟩ := ih
    cases hc : p c with
    | false =>
      have hgap : ∀ d ∈ [c], p d = false := by simpa using hc
      exact ⟨rs, h.append hgap⟩
    | true =>
      by_cases hs : ∀ d ∈ s.head?, p d = false
      · have hrun : ∀ d ∈ [c], p d := by simpa using hc
        exact ⟨[c] :: rs, @HasRuns.cons p [] _ _ _ nofun (List.cons_ne_nil c []) hrun hs h⟩
      · -- the character belongs to the first run, since nothing stands between them
        cases h with
        | nil hgap => exact absurd (fun d hd => hgap d (List.mem_of_mem_head? hd)) hs
        | @cons gap run rest runs hgap hne hrun hrest h =>
          obtain rfl : gap = [] := by
            by_contra hgap'
            apply hs
            intro d hd
            rw [List.head?_append_of_ne_nil _ hgap'] at hd
            exact hgap d (List.mem_of_mem_head? hd)
          exact ⟨(c :: run) :: runs, @HasRuns.cons p [] (c :: run) _ _ nofun
            (List.cons_ne_nil c run) (List.forall_mem_cons.mpr ⟨hc, hrun⟩) hrest h⟩

/-- A text is split into its maximal runs. -/
theorem runs_eq_iff {rs : List (List Char)} : runs p s = rs ↔ HasRuns p s rs := by
  constructor
  · rintro rfl
    obtain ⟨rs, h⟩ := exists_hasRuns p s
    rwa [h.runs_eq]
  · exact HasRuns.runs_eq

theorem runs_append_gap {gap : List Char} (hgap : ∀ c ∈ gap, p c = false) (s : List Char) :
    runs p (s ++ gap) = runs p s := by
  cases gap with
  | nil => rw [List.append_nil]
  | cons c gap =>
    obtain ⟨hc, hgap⟩ := List.forall_mem_cons.mp hgap
    rw [runs_append_cons hc, runs_eq_nil_iff.mpr hgap, List.append_nil]

end Text

namespace Statement

variable {raw s : List Char}

/-! ## The part that is read -/

/--
What is read of a line: it begins and ends with no white space, it holds no number sign, and what
stands around it is white space and a comment.
-/
inductive IsBody : List Char → List Char → Prop
  | intro {lead s trail comment : List Char} (hlead : ∀ c ∈ lead, isBlank c)
    (hhead : ∀ c ∈ s.head?, isBlank c = false) (hplain : '#' ∉ s)
    (hlast : ∀ c ∈ s.getLast?, isBlank c = false) (htrail : ∀ c ∈ trail, isBlank c)
    (hcomment : ∀ c ∈ comment.head?, c = '#') : IsBody (lead ++ s ++ trail ++ comment) s

theorem trimEnd_append {p : Char → Bool} {s trail : List Char}
    (hlast : ∀ c ∈ s.getLast?, p c = false) (htrail : ∀ c ∈ trail, p c) :
    trimEnd p (s ++ trail) = s := by
  have htrail : ∀ c ∈ trail.reverse, p c := by simpa using htrail
  have hlast : ∀ c ∈ s.reverse.head?, p c = false := by simpa using hlast
  rw [trimEnd, List.reverse_append, (span_append htrail hlast).2, List.reverse_reverse]

theorem trim_append {lead trail : List Char} (hlead : ∀ c ∈ lead, isBlank c)
    (hhead : ∀ c ∈ s.head?, isBlank c = false) (hlast : ∀ c ∈ s.getLast?, isBlank c = false)
    (htrail : ∀ c ∈ trail, isBlank c) : trim (lead ++ s ++ trail) = s := by
  rw [trim, List.append_assoc, List.dropWhile_append_of_pos hlead]
  cases s with
  | nil =>
    rw [List.nil_append, List.dropWhile_eq_nil_iff.mpr htrail]
    rfl
  | cons c s =>
    rw [List.cons_append, List.dropWhile_cons_of_neg (by simp [hhead c rfl])]
    exact trimEnd_append hlast htrail

theorem stripComment_append {comment : List Char} (hplain : '#' ∉ s)
    (hcomment : ∀ c ∈ comment.head?, c = '#') : stripComment (s ++ comment) = s := by
  refine (span_append ?_ ?_).1
  · intro c hc
    rw [decide_eq_true_eq]
    rintro rfl
    exact hplain hc
  · intro c hc
    rw [hcomment c hc]
    rfl

theorem IsBody.eq_body (h : IsBody raw s) : s = body raw := by
  cases h with
  | @intro lead _ trail comment hlead hhead hplain hlast htrail hcomment =>
    have hsign : ∀ c, isBlank c → c ≠ '#' := by
      rintro c hc rfl
      cases hc
    have hstrip : stripComment (lead ++ s ++ trail ++ comment) = lead ++ s ++ trail := by
      apply stripComment_append _ hcomment
      intro h
      rcases List.mem_append.mp h with h | h
      · rcases List.mem_append.mp h with h | h
        · exact hsign _ (hlead _ h) rfl
        · exact hplain h
      · exact hsign _ (htrail _ h) rfl
    rw [body, hstrip, trim_append hlead hhead hlast htrail]

theorem exists_trimEnd (p : Char → Bool) (s : List Char) : ∃ trail, s = trimEnd p s ++ trail ∧
    (∀ c ∈ (trimEnd p s).getLast?, p c = false) ∧ ∀ c ∈ trail, p c := by
  obtain ⟨hsplit, htrail, hlast⟩ := span_split p s.reverse
  refine ⟨(s.reverse.takeWhile p).reverse, ?_, by simpa [trimEnd] using hlast,
    by simpa using htrail⟩
  rw [trimEnd, ← List.reverse_append, ← hsplit, List.reverse_reverse]

theorem exists_trim (s : List Char) : ∃ lead trail, s = lead ++ trim s ++ trail ∧
    (∀ c ∈ lead, isBlank c) ∧ (∀ c ∈ (trim s).head?, isBlank c = false) ∧
    (∀ c ∈ (trim s).getLast?, isBlank c = false) ∧ ∀ c ∈ trail, isBlank c := by
  obtain ⟨hsplit, hlead, hhead⟩ := span_split isBlank s
  obtain ⟨trail, htrim, hlast, htrail⟩ := exists_trimEnd isBlank (s.dropWhile isBlank)
  change _ = trim s ++ trail at htrim
  refine ⟨s.takeWhile isBlank, trail, ?_, hlead, ?_, hlast, htrail⟩
  · rw [List.append_assoc, ← htrim]
    exact hsplit
  · intro c hc
    apply hhead c
    rw [htrim, List.head?_append_of_ne_nil _ (List.ne_nil_of_mem (List.mem_of_mem_head? hc))]
    exact hc

theorem exists_comment (raw : List Char) : ∃ comment, raw = stripComment raw ++ comment ∧
    '#' ∉ stripComment raw ∧ ∀ c ∈ comment.head?, c = '#' := by
  obtain ⟨hraw, hplain, hcomment⟩ := span_split (fun c => decide (c ≠ '#')) raw
  refine ⟨_, hraw, ?_, by simpa using hcomment⟩
  intro hsign
  simpa using hplain '#' hsign

theorem isBody_body (raw : List Char) : IsBody raw (body raw) := by
  obtain ⟨comment, hraw, hplain, hcomment⟩ := exists_comment raw
  obtain ⟨lead, trail, hstrip, hlead, hhead, hlast, htrail⟩ := exists_trim (stripComment raw)
  have hbody : '#' ∉ body raw := by
    intro hsign
    apply hplain
    rw [hstrip]
    exact List.mem_append_left _ (List.mem_append_right _ hsign)
  have h := IsBody.intro hlead hhead hbody hlast htrail hcomment
  rwa [← hstrip, ← hraw] at h

theorem isBody_iff : IsBody raw s ↔ s = body raw := by
  constructor
  · exact IsBody.eq_body
  · rintro rfl
    exact isBody_body raw

theorem runs_body (raw : List Char) : runs (fun c => !isSeparator c) (body raw) =
    runs (fun c => !isSeparator c) (stripComment raw) := by
  have hblank : ∀ c, isBlank c → (!isSeparator c) = false := by
    intro c hc
    rw [isSeparator_of_isBlank hc]
    rfl
  obtain ⟨lead, trail, hstrip, hlead, -, -, htrail⟩ := exists_trim (stripComment raw)
  rw [hstrip, runs_append_gap fun c hc => hblank c (htrail c hc),
    runs_append_of_forall_not fun c hc => hblank c (hlead c hc)]
  rfl

/-! ## Directives and labels -/

/--
The text of a data directive with a name and digits. Its white space is that of ASCII; there is
some after the word in front, and there may be some around the comma.
-/
inductive IsDirective (name digits : List Char) : List Char → Prop
  | intro {gap before after : List Char} (hne : gap ≠ []) (hgap : ∀ c ∈ gap, isAsciiBlank c)
    (hname : isWord name) (hbefore : ∀ c ∈ before, isAsciiBlank c)
    (hafter : ∀ c ∈ after, isAsciiBlank c) (hdigits : isNumeral digits) :
    IsDirective name digits
      ('.' :: 'd' :: 'a' :: 't' :: 'a' :: (gap ++ (name ++ (before ++ ',' :: (after ++ digits)))))

theorem not_isAsciiBlank_of_isWordChar {c : Char} (h : isWordChar c) : isAsciiBlank c = false := by
  rw [Bool.eq_false_iff]
  intro hb
  exact not_isBlank_of_isSeparator (isSeparator_of_isWordChar h) (isBlank_of_isAsciiBlank hb)

theorem head?_of_isWord {w : List Char} (h : isWord w) (t : List Char) :
    ∀ c ∈ (w ++ t).head?, isWordChar c := by
  obtain ⟨hne, hall⟩ := Bool.and_eq_true_iff.mp h
  cases w with
  | nil => cases hne
  | cons c w =>
    rintro d ⟨⟩
    exact List.all_eq_true.mp hall c (.head _)

theorem isDirective_of_dataFields? {name digits : List Char}
    (h : dataFields? s = some (name, digits)) : IsDirective name digits s := by
  unfold dataFields? at h
  split at h
  next rest =>
    dsimp only at h
    split at h
    next last hlast =>
      split at h
      next hc =>
        cases h
        simp only [Bool.and_eq_true] at hc
        obtain ⟨⟨hhead, hname⟩, hdigits⟩ := hc
        obtain ⟨hrest, hgap, -⟩ := span_split isAsciiBlank rest
        obtain ⟨hnamed, -, -⟩ := span_split isWordChar (rest.dropWhile isAsciiBlank)
        obtain ⟨hcomma, hbefore, -⟩ :=
          span_split isAsciiBlank ((rest.dropWhile isAsciiBlank).dropWhile isWordChar)
        obtain ⟨hafter, hblank, -⟩ := span_split isAsciiBlank last
        rw [hlast] at hcomma
        have hne : rest.takeWhile isAsciiBlank ≠ [] := by
          cases rest with
          | nil => cases hhead
          | cons c rest => simp [show isAsciiBlank c = true from hhead]
        have hdirective := IsDirective.intro hne hgap hname hbefore hblank hdigits
        rwa [← hafter, ← hcomma, ← hnamed, ← hrest] at hdirective
      next => cases h
    next => cases h
  next => cases h

theorem head?_of_blanks {before : List Char} (rest : List Char)
    (hbefore : ∀ c ∈ before, isAsciiBlank c) :
    ∀ c ∈ (before ++ ',' :: rest).head?, isWordChar c = false := by
  intro c hc
  rw [Bool.eq_false_iff]
  intro hword
  cases before with
  | nil =>
    cases hc
    cases hword
  | cons d before =>
    cases hc
    have hblank := not_isAsciiBlank_of_isWordChar hword
    rw [hbefore c (.head _)] at hblank
    cases hblank

theorem IsDirective.dataFields? {name digits : List Char} (h : IsDirective name digits s) :
    dataFields? s = some (name, digits) := by
  cases h with
  | @intro gap before after hne hgap hname hbefore hafter hdigits =>
    have hnamed : (gap ++ (name ++ (before ++ ',' :: (after ++ digits)))).dropWhile isAsciiBlank =
        name ++ (before ++ ',' :: (after ++ digits)) := by
      refine (span_append hgap ?_).2
      intro c hc
      exact not_isAsciiBlank_of_isWordChar (head?_of_isWord hname _ c hc)
    obtain ⟨htake, hdrop⟩ := span_append
      (List.all_eq_true.mp (Bool.and_eq_true_iff.mp hname).2)
      (head?_of_blanks (after ++ digits) hbefore)
    have hcomma : (before ++ ',' :: (after ++ digits)).dropWhile isAsciiBlank =
        ',' :: (after ++ digits) := by
      refine (span_append hbefore ?_).2
      rintro c ⟨⟩
      rfl
    have hlast : (after ++ digits).dropWhile isAsciiBlank = digits := by
      refine (span_append hafter ?_).2
      intro c hc
      apply not_isAsciiBlank_of_isWordChar
      apply head?_of_isWord (isWord_of_isNumeral hdigits) []
      simpa using hc
    have hhead : (gap ++ (name ++ (before ++ ',' :: (after ++ digits)))).head?.any
        isAsciiBlank := by
      cases gap with
      | nil => exact absurd rfl hne
      | cons c gap => exact hgap c (.head _)
    simp only [Statement.dataFields?, hnamed, htake, hdrop, hcomma, hlast, hhead, hname, hdigits,
      Bool.and_self, if_true]

theorem dataFields?_eq_some_iff {name digits : List Char} :
    dataFields? s = some (name, digits) ↔ IsDirective name digits s := by
  constructor
  · exact isDirective_of_dataFields?
  · exact IsDirective.dataFields?

theorem labelName?_eq_some_iff {name : List Char} :
    labelName? s = some name ↔ s = name ++ [':'] ∧ isWord name := by
  unfold labelName?
  constructor
  · intro h
    split at h
    next hc =>
      cases h
      obtain ⟨hlast, hword⟩ := Bool.and_eq_true_iff.mp hc
      have hlast : s.getLast? = some ':' := by simpa using hlast
      exact ⟨(List.dropLast_append_getLast? ':' hlast).symm, hword⟩
    next => cases h
  · rintro ⟨rfl, hword⟩
    simp [hword]

/-! ## Lines -/

/-- What is read of a part of a line that has a given shape. No part has two of the shapes. -/
inductive Reading : List Char → Except Fault (Option Statement) → Prop
  | empty : Reading [] (.ok none)
  | data {s name : List Char} {zeros value : Nat} (h : IsDirective name (numeral zeros value) s)
    (hlen : (numeral zeros value).length ≤ maxDigits) (hvalue : value ≤ wordLimit) :
    Reading s (.ok (some (.data (String.ofList name) value)))
  | dataTooLarge {s name : List Char} {zeros value : Nat}
    (h : IsDirective name (numeral zeros value) s)
    (hlen : (numeral zeros value).length ≤ maxDigits) (hvalue : wordLimit < value) :
    Reading s (.error (.cause (.dataTooLarge value)))
  | numeralTooLong {s name digits : List Char} (h : IsDirective name digits s)
    (hlen : maxDigits < digits.length) : Reading s (.error (.defect .numeralTooLong))
  /-- Nothing else may begin with a dot. -/
  | invalidDirective {s : List Char} (hdot : s.head? = some '.')
    (h : ∀ name digits, ¬ IsDirective name digits s) :
    Reading s (.error (.cause .invalidDirective))
  | label {name : List Char} (hname : isWord name) :
    Reading (name ++ [':']) (.ok (some (.label (String.ofList name))))
  /-- The tokens are the runs between the separators. -/
  | instruction {s first : List Char} {rest : List (List Char)} (hdot : s.head? ≠ some '.')
    (hlabel : ∀ name, isWord name → s ≠ name ++ [':'])
    (hruns : HasRuns (fun c => !isSeparator c) s (first :: rest)) :
    Reading s (.ok (some (.instruction (String.ofList (lowercase first))
      (rest.map String.ofList))))
  | noMnemonic {s : List Char} (hne : s ≠ []) (h : ∀ c ∈ s, isSeparator c) :
    Reading s (.error (.defect .noMnemonic))

theorem IsDirective.isNumeral {name digits : List Char} (h : IsDirective name digits s) :
    isNumeral digits := by
  cases h
  assumption

theorem IsDirective.head? {name digits : List Char} (h : IsDirective name digits s) :
    s.head? = some '.' := by
  cases h
  rfl

theorem parse_of_dot (h : (body raw).head? = some '.') :
    parse raw = some <$> parseData (body raw) := by
  unfold parse
  split
  next hnil =>
    rw [hnil] at h
    cases h
  next rest hbody => rw [hbody]
  next hdot =>
    obtain ⟨rest, hbody⟩ := List.head?_eq_some_iff.mp h
    exact absurd hbody (hdot rest)

theorem parse_of_labelName? {name : List Char} (h : labelName? (body raw) = some name) :
    parse raw = .ok (some (.label (String.ofList name))) := by
  obtain ⟨hbody, hname⟩ := labelName?_eq_some_iff.mp h
  unfold parse
  split
  next hnil =>
    rw [hnil] at hbody
    cases name <;> cases hbody
  next rest hdot =>
    -- a word does not begin with a dot
    have hhead := head?_of_isWord hname [':']
    rw [← hbody, hdot] at hhead
    exact absurd (hhead '.' rfl) (by decide)
  next => rw [h]

theorem parseData_of_isDirective {name digits : List Char} {value : Nat}
    (h : IsDirective name digits s) (hvalue : numeralValue? digits = some value) :
    parseData s = if value ≤ wordLimit then .ok (data (String.ofList name) value)
      else .error (.cause (.dataTooLarge value)) := by
  simp only [parseData, dataFields?_eq_some_iff.mpr h, hvalue]

theorem parseData_of_forall_not (h : ∀ name digits, ¬ IsDirective name digits s) :
    parseData s = .error (.cause .invalidDirective) := by
  unfold parseData
  cases hf : Statement.dataFields? s with
  | none => rfl
  | some fields => exact absurd (dataFields?_eq_some_iff.mp hf) (h _ _)

theorem Reading.parse_eq {result : Except Fault (Option Statement)}
    (h : Reading (body raw) result) : parse raw = result := by
  generalize hs : body raw = s at h
  cases h with
  | empty => rw [parse, hs]
  | data h hlen hvalue =>
    subst hs
    rw [parse_of_dot h.head?, parseData_of_isDirective h (numeralValue?_numeral hlen),
      if_pos hvalue]
    rfl
  | dataTooLarge h hlen hvalue =>
    subst hs
    rw [parse_of_dot h.head?, parseData_of_isDirective h (numeralValue?_numeral hlen),
      if_neg (Nat.not_le_of_lt hvalue)]
    rfl
  | numeralTooLong h hlen =>
    subst hs
    exact parse_eq_defect_iff.mpr (.inr ⟨rfl, _, _, dataFields?_eq_some_iff.mpr h, hlen⟩)
  | invalidDirective hdot h =>
    subst hs
    rw [parse_of_dot hdot, parseData_of_forall_not h]
    rfl
  | label hname => exact parse_of_labelName? (labelName?_eq_some_iff.mpr ⟨hs, hname⟩)
  | instruction hdot hlabel hruns =>
    have hname : labelName? s = none := by
      rw [Option.eq_none_iff_forall_ne_some]
      intro name hname
      obtain ⟨hs, hword⟩ := labelName?_eq_some_iff.mp hname
      exact hlabel name hword hs
    subst hs
    exact parse_eq_instruction_iff.mpr ⟨hdot, hname, _, _, hruns.runs_eq, rfl, rfl⟩
  | noMnemonic hne h =>
    subst hs
    exact parse_eq_defect_iff.mpr (.inl ⟨rfl, hne, h⟩)

theorem exists_reading_of_dot (hdot : s.head? = some '.') : ∃ result, Reading s result := by
  by_cases hshape : ∃ name digits, IsDirective name digits s
  · obtain ⟨name, digits, h⟩ := hshape
    rcases Nat.lt_or_ge maxDigits digits.length with hlong | hlen
    · exact ⟨_, .numeralTooLong h hlong⟩
    · obtain ⟨hne, hall⟩ := Bool.and_eq_true_iff.mp h.isNumeral
      obtain ⟨zeros, value, rfl⟩ := exists_numeral (by simpa using hne) (List.all_eq_true.mp hall)
      rcases Nat.lt_or_ge wordLimit value with hlarge | hvalue
      · exact ⟨_, .dataTooLarge h hlen hlarge⟩
      · exact ⟨_, .data h hlen hvalue⟩
  · refine ⟨_, .invalidDirective hdot ?_⟩
    intro name digits h
    exact hshape ⟨name, digits, h⟩

theorem exists_reading (s : List Char) : ∃ result, Reading s result := by
  by_cases hdot : s.head? = some '.'
  · exact exists_reading_of_dot hdot
  · by_cases hlabel : ∃ name, isWord name ∧ s = name ++ [':']
    · obtain ⟨name, hname, rfl⟩ := hlabel
      exact ⟨_, .label hname⟩
    · obtain ⟨rs, hruns⟩ := exists_hasRuns (fun c => !isSeparator c) s
      cases rs with
      | cons first rest =>
        refine ⟨_, .instruction hdot ?_ hruns⟩
        intro name hname hs
        exact hlabel ⟨name, hname, hs⟩
      | nil =>
        rcases eq_or_ne s [] with rfl | hne
        · exact ⟨_, .empty⟩
        · refine ⟨_, .noMnemonic hne ?_⟩
          simpa using runs_eq_nil_iff.mp hruns.runs_eq

/-- A line is read as the grammar says. -/
theorem reading_iff {result : Except Fault (Option Statement)} :
    Reading (body raw) result ↔ parse raw = result := by
  constructor
  · exact Reading.parse_eq
  · rintro rfl
    obtain ⟨result, h⟩ := exists_reading (body raw)
    rwa [h.parse_eq]

/-! ## Spelling -/

/-- A text that holds operands, with separators in front of each. -/
inductive IsOperands : List Char → List String → Prop
  | nil : IsOperands [] []
  | cons {gap text : List Char} {token : String} {tokens : List String} (hne : gap ≠ [])
    (hgap : ∀ c ∈ gap, isSeparator c) (htoken : IsToken token.toList) (h : IsOperands text tokens) :
    IsOperands (gap ++ (token.toList ++ text)) (token :: tokens)

/-- A line that spells an instruction, with separators around it and perhaps a comment. -/
inductive IsInstruction (mnemonic : String) (tokens : List String) : List Char → Prop
  | intro {lead text trail comment : List Char} (hlead : ∀ c ∈ lead, isSeparator c)
    (htext : IsOperands text tokens) (htrail : ∀ c ∈ trail, isSeparator c)
    (hcomment : ∀ c ∈ comment.head?, c = '#') :
    IsInstruction mnemonic tokens (lead ++ (mnemonic.toList ++ (text ++ trail)) ++ comment)

theorem IsOperands.head? {text trail : List Char} {tokens : List String}
    (h : IsOperands text tokens) (htrail : ∀ c ∈ trail, isSeparator c) :
    ∀ c ∈ (text ++ trail).head?, isSeparator c := by
  cases h with
  | nil =>
    intro c hc
    exact htrail c (List.mem_of_mem_head? hc)
  | cons hne hgap =>
    intro c hc
    rw [List.append_assoc, List.head?_append_of_ne_nil _ hne] at hc
    exact hgap c (List.mem_of_mem_head? hc)

theorem IsOperands.plain {text : List Char} {tokens : List String} (h : IsOperands text tokens) :
    '#' ∉ text := by
  induction h with
  | nil => nofun
  | cons hne hgap htoken _ ih =>
    intro hsign
    rcases List.mem_append.mp hsign with hsign | hsign
    · exact absurd (hgap _ hsign) (by decide)
    · rcases List.mem_append.mp hsign with hsign | hsign
      · exact (htoken.plain _ hsign).2 rfl
      · exact ih hsign

theorem IsOperands.hasRuns {text trail : List Char} {tokens : List String}
    (h : IsOperands text tokens) (htrail : ∀ c ∈ trail, isSeparator c) :
    HasRuns (fun c => !isSeparator c) (text ++ trail) (tokens.map String.toList) := by
  induction h with
  | nil => exact .nil (by simpa using htrail)
  | cons hne hgap htoken h ih =>
    rw [List.append_assoc, List.append_assoc, List.map_cons]
    refine .cons (by simpa using hgap) htoken.ne_nil ?_ ?_ ih
    · intro c hc
      rw [(htoken.plain c hc).1]
      rfl
    · simpa using h.head? htrail

/-- A line with a word as its first token is an instruction: a dot or a colon would belong to it. -/
theorem parse_of_hasRuns {first : List Char} {rest : List (List Char)}
    (h : HasRuns (fun c => !isSeparator c) (body raw) (first :: rest)) (hfirst : isWord first) :
    parse raw = .ok (some (.instruction (String.ofList (lowercase first))
      (rest.map String.ofList))) := by
  apply Reading.parse_eq
  apply Reading.instruction _ _ h
  · intro hdot
    generalize body raw = s at h hdot
    cases h with
    | @cons gap _ _ _ hgap =>
      cases gap with
      | nil => exact absurd (head?_of_isWord hfirst _ _ hdot) (by decide)
      | cons c gap =>
        cases hdot
        exact absurd (hgap '.' (.head _)) (by decide)
  · intro name hname hlabel
    have hplain : ∀ c ∈ name ++ [':'], (!isSeparator c) = true := by
      intro c hc
      rcases List.mem_append.mp hc with hc | hc
      · have hword := List.all_eq_true.mp (Bool.and_eq_true_iff.mp hname).2 c hc
        rw [isSeparator_of_isWordChar hword]
        rfl
      · obtain rfl := List.mem_singleton.mp hc
        decide
    have hruns := h.runs_eq
    rw [hlabel, ← List.append_nil (name ++ [':']),
      runs_append_of_forall (by simp) hplain (by simp)] at hruns
    obtain ⟨rfl, -⟩ := List.cons.inj hruns
    exact absurd (List.all_eq_true.mp (Bool.and_eq_true_iff.mp hfirst).2 ':' (by simp)) (by decide)

theorem IsInstruction.hasRuns {mnemonic : String} {tokens : List String}
    (h : IsInstruction mnemonic tokens raw) (hmnemonic : IsToken mnemonic.toList) :
    HasRuns (fun c => !isSeparator c) (body raw) (mnemonic.toList :: tokens.map String.toList) := by
  cases h with
  | @intro lead text trail comment hlead htext htrail hcomment =>
    have hsign : ∀ c, isSeparator c → c ≠ '#' := by
      rintro c hc rfl
      cases hc
    have hstrip : stripComment (lead ++ (mnemonic.toList ++ (text ++ trail)) ++ comment) =
        lead ++ (mnemonic.toList ++ (text ++ trail)) := by
      apply stripComment_append _ hcomment
      intro h
      rcases List.mem_append.mp h with h | h
      · exact hsign _ (hlead _ h) rfl
      · rcases List.mem_append.mp h with h | h
        · exact (hmnemonic.plain _ h).2 rfl
        · rcases List.mem_append.mp h with h | h
          · exact htext.plain h
          · exact hsign _ (htrail _ h) rfl
    rw [← runs_eq_iff, runs_body, hstrip, runs_eq_iff]
    refine .cons (by simpa using hlead) hmnemonic.ne_nil ?_ ?_ (htext.hasRuns htrail)
    · intro c hc
      rw [(hmnemonic.plain c hc).1]
      rfl
    · simpa using htext.head? htrail

theorem IsInstruction.parse_eq {mnemonic : String} {tokens : List String}
    (h : IsInstruction mnemonic tokens raw) (hmnemonic : isWord mnemonic.toList) :
    parse raw =
      .ok (some (.instruction (String.ofList (lowercase mnemonic.toList)) tokens)) := by
  rw [parse_of_hasRuns (h.hasRuns (isToken_of_isWord hmnemonic)) hmnemonic]
  simp [Function.comp_def]

theorem mnemonic_of_mem_catalog {entry : Instruction} (h : entry ∈ Instruction.catalog) :
    isWord entry.mnemonic.toList ∧
      String.ofList (lowercase entry.mnemonic.toList) = entry.mnemonic := by
  revert entry
  decide +kernel

/--
A line has one part that is read, and what it is read as is given by the grammar. An instruction of
the catalog is read back from its tokens, however they are set apart.
-/
theorem parse_eq_iff_reading (raw : List Char) :
    ∃ s, (∀ t, IsBody raw t ↔ t = s) ∧ (∀ result, parse raw = result ↔ Reading s result) ∧
      ∀ entry ∈ Instruction.catalog, ∀ tokens, IsInstruction entry.mnemonic tokens raw →
        parse raw = .ok (some (.instruction entry.mnemonic tokens)) := by
  refine ⟨body raw, fun t => isBody_iff, fun result => reading_iff.symm, ?_⟩
  intro entry hentry tokens h
  obtain ⟨hword, hlower⟩ := mnemonic_of_mem_catalog hentry
  rw [h.parse_eq hword, hlower]

/-- The tokens may stand apart by a space or by a comma, and a comment may follow. -/
theorem parse_eq_iff_reading_move :
    (⟨"mov", none, .move⟩ ∈ Instruction.catalog ∧
      IsInstruction "mov" ["$1", "%r0"] "mov $1,%r0 # one".toList) ∧
    parse "mov $1,%r0 # one".toList = .ok (some (.instruction "mov" ["$1", "%r0"])) := by
  have hentry : ⟨"mov", none, .move⟩ ∈ Instruction.catalog := by decide
  have hspace : ∀ c ∈ [' '], isSeparator c := List.forall_mem_singleton.mpr rfl
  have hcomma : ∀ c ∈ [','], isSeparator c := List.forall_mem_singleton.mpr rfl
  have hnumber : Term.ofToken? "$1" = some (.inr (.number 1)) := by rfl
  have hregister : Term.ofToken? "%r0" = some (.inl .r0) := by rfl
  have hlast : IsOperands ",%r0".toList ["%r0"] :=
    @IsOperands.cons [','] [] _ [] (by decide) hcomma (isToken_of_ofToken? hregister) .nil
  have hoperands : IsOperands " $1,%r0".toList ["$1", "%r0"] :=
    @IsOperands.cons [' '] _ _ _ (by decide) hspace (isToken_of_ofToken? hnumber) hlast
  have hcomment : ∀ c ∈ "# one".toList.head?, c = '#' := by
    rintro c ⟨⟩
    rfl
  have hspelled : IsInstruction "mov" ["$1", "%r0"] "mov $1,%r0 # one".toList :=
    @IsInstruction.intro "mov" _ [] _ [' '] "# one".toList nofun hoperands hspace hcomment
  obtain ⟨s, -, -, hread⟩ := parse_eq_iff_reading "mov $1,%r0 # one".toList
  exact ⟨⟨hentry, hspelled⟩, hread _ hentry _ hspelled⟩

end Statement

end Nibble
