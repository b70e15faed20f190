import Nibble.Proofs.Folders
import Nibble.Proofs.Outputs
import Nibble.Proofs.SourceName

/-! # Coupled runs

Two runs of the assembler's command on the same text, which differ in where the text comes from and
so in the name that they have for it. They are followed step by step: every step gives the same
value in both runs and keeps the two sessions alike.
-/

namespace Nibble.Shell

open Text

/-! ## Two sessions -/

/-- A line of the command's report on a source, which it may name. -/
inductive Remark
  | warning (name : String) (previous : Int) (line : Option Int)
  | error (cause : Cause) (line : Option Int)
  /-- A line that does not name the source. -/
  | note (text : String)

namespace Remark

def text (source : String) : Remark → String
  | warning name previous line => (⟨name, previous, ⟨source, line⟩⟩ : Warning).text
  | error cause line => (⟨cause, ⟨source, line⟩⟩ : Diagnostic).text
  | note text => text

def report (source : String) (remarks : List Remark) : String :=
  String.join (remarks.map fun r => r.text source ++ "\n")

theorem report_concat (source : String) (remarks : List Remark) (r : Remark) :
    report source (remarks ++ [r]) = report source remarks ++ (r.text source ++ "\n") := by
  simp [report]

end Remark

/-- Whether two actions give the same value from sessions in a relation, and leave them in another
one, which may depend on the value. -/
def Coupled {α : Type} (R : Session → Session → Prop) (x x' : StateM Session α)
    (S : α → Session → Session → Prop) : Prop :=
  ∀ s s', R s s' → ∃ v t t', x.run s = (v, t) ∧ x'.run s' = (v, t') ∧ S v t t'

namespace Coupled

variable {α β : Type} {R : Session → Session → Prop} {x x' : StateM Session α}
  {S S' : α → Session → Session → Prop} {T : β → Session → Session → Prop}
  {next next' : α → StateM Session β}

theorem pure {v : α} (h : ∀ s s', R s s' → S v s s') : Coupled R (Pure.pure v) (Pure.pure v) S := by
  intro s s' hs
  exact ⟨v, s, s', rfl, rfl, h s s' hs⟩

theorem bind (h : Coupled R x x' S) (hn : ∀ v, Coupled (S v) (next v) (next' v) T) :
    Coupled R (x >>= next) (x' >>= next') T := by
  intro s s' hs
  obtain ⟨v, t, t', hx, hx', hv⟩ := h s s' hs
  obtain ⟨w, u, u', hy, hy', hw⟩ := hn v t t' hv
  refine ⟨w, u, u', ?_, ?_, hw⟩
  · rw [StateT.run_bind, hx]
    exact hy
  · rw [StateT.run_bind, hx']
    exact hy'

theorem mono (h : Coupled R x x' S) (hS : ∀ v s s', S v s s' → S' v s s') :
    Coupled R x x' S' := by
  intro s s' hs
  obtain ⟨v, t, t', hx, hx', hv⟩ := h s s' hs
  exact ⟨v, t, t', hx, hx', hS v t t' hv⟩

end Coupled

/-- Whether two sessions have the same output, have their folders in a relation, and have the same
remarks added to some complaints, each about its own source. -/
structure Session.Alike (before source source' : String) (F : Folder → Folder → Prop)
    (s s' : Session) : Prop where
  output : s'.output = s.output
  complaints : ∃ remarks, s.complaints = before ++ Remark.report source remarks ∧
    s'.complaints = before ++ Remark.report source' remarks
  folder : F s.folder s'.folder

/-- Whether two folders are the same, but for a listing that may have been written last and that
names another source. -/
def Folder.AlikeBut (listing source source' : String) (f f' : Folder) : Prop :=
  f' = f ∨ ∃ (g : Folder) (rows : List Row) (symbols : SymbolTable),
    g.write listing (Utf8.encode (Listing.text rows symbols source)) = .ok f ∧
      g.write listing (Utf8.encode (Listing.text rows symbols source')) = .ok f'

theorem Session.Alike.but {before source source' listing : String} {s s' : Session}
    (h : Alike before source source' Eq s s') :
    Alike before source source' (Folder.AlikeBut listing source source') s s' :=
  ⟨h.output, h.complaints, .inl h.folder.symm⟩

section Steps

open Session

variable {before source source' : String} {F : Folder → Folder → Prop}

theorem coupled_print (text : String) :
    Coupled (Alike before source source' F) (host.print text) (host.print text)
      fun _ => Alike before source source' F := by
  intro s s' h
  exact ⟨(), _, _, rfl, rfl, congrArg (· ++ text) h.output, h.complaints, h.folder⟩

theorem coupled_complain (r : Remark) :
    Coupled (Alike before source source' F) (host.complain (r.text source ++ "\n"))
      (host.complain (r.text source' ++ "\n")) fun _ => Alike before source source' F := by
  intro s s' h
  obtain ⟨remarks, hs, hs'⟩ := h.complaints
  refine ⟨(), _, _, rfl, rfl, h.output, ⟨remarks ++ [r], ?_, ?_⟩, h.folder⟩
  · rw [Remark.report_concat, ← String.append_assoc, ← hs]
  · rw [Remark.report_concat, ← String.append_assoc, ← hs']

theorem coupled_fail (r : Remark) :
    Coupled (Alike before source source' F) (host.fail (r.text source))
      (host.fail (r.text source')) fun _ => Alike before source source' F :=
  (coupled_complain r).bind fun _ => .pure fun _ _ => id

theorem coupled_failWith (failure : Failure) :
    Coupled (Alike before source source' F) (host.failWith (failure.withFile source))
      (host.failWith (failure.withFile source')) fun _ => Alike before source source' F := by
  cases failure with
  | diagnostic d => exact coupled_fail (.error d.cause d.place.line)
  | defect d => exact .pure fun _ _ => id

theorem coupled_failFor (name : String) (refusal : Refusal) :
    Coupled (Alike before source source' F) (host.failFor name refusal)
      (host.failFor name refusal) fun _ => Alike before source source' F := by
  cases refusal with
  | system code reason => exact coupled_fail (.note _)
  | invalidName => exact .pure fun _ _ => id

theorem coupled_warnings (warnings : List Warning) :
    Coupled (Alike before source source' F)
      ((warnings.map (Warning.withFile source)).forM fun w => host.complain (w.text ++ "\n"))
      ((warnings.map (Warning.withFile source')).forM fun w => host.complain (w.text ++ "\n"))
      fun _ => Alike before source source' F := by
  induction warnings with
  | nil => exact .pure fun _ _ => id
  | cons w warnings ih =>
    exact (coupled_complain (.warning w.name w.previous w.place.line)).bind fun _ => ih

theorem coupled_write (name content : String) :
    Coupled (Alike before source source' Eq) (host.write name content) (host.write name content)
      fun _ => Alike before source source' Eq := by
  intro s s' h
  rw [run_write, run_write, ← h.folder]
  cases s.folder.write name (Utf8.encode content) with
  | error refusal => exact ⟨_, _, _, rfl, rfl, h⟩
  | ok folder => exact ⟨_, _, _, rfl, rfl, h.output, h.complaints, rfl⟩

/-- Two listings that differ in the name of the source are both written or both refused. -/
theorem coupled_write_listing (name : String) (rows : List Row) (symbols : SymbolTable) :
    Coupled (Alike before source source' Eq)
      (host.write name (Listing.text rows symbols source))
      (host.write name (Listing.text rows symbols source'))
      fun _ => Alike before source source' (Folder.AlikeBut name source source') := by
  intro s s' h
  rw [run_write, run_write, ← h.folder]
  cases hp : s.folder.path? name with
  | none =>
    obtain ⟨refusal, hr⟩ := Folder.exists_refusal_of_path? hp
    rw [hr, hr]
    exact ⟨_, _, _, rfl, rfl, h.but⟩
  | some path =>
    have hw := Folder.write_of_path? hp
    rw [hw, hw]
    exact ⟨_, _, _, rfl, rfl, h.output, h.complaints, .inr ⟨s.folder, rows, symbols, hw _, hw _⟩⟩

end Steps

namespace Assemble

open Session

variable {before source source' : String} {options options' : Options} {a : Assembler}

theorem coupled_writeListing (hl : options'.listing = options.listing) :
    Coupled (Alike before source source' Eq)
      (writeListing host options (a.withFile source) source)
      (writeListing host options' (a.withFile source') source')
      fun _ => Alike before source source'
        (Folder.AlikeBut options.listing source source') := by
  unfold writeListing
  rw [hl]
  split
  · exact .pure fun _ _ h => h.but
  · apply (coupled_write_listing options.listing a.rows.toList a.image.symbols).bind
    rintro (refusal | ⟨⟩)
    · exact .pure fun _ _ => id
    · exact (coupled_print _).bind fun _ => .pure fun _ _ => id

theorem coupled_writeAll (ho : options'.output = options.output)
    (hl : options'.listing = options.listing) :
    Coupled (Alike before source source' Eq)
      (writeAll host options (a.withFile source) source)
      (writeAll host options' (a.withFile source') source')
      fun _ => Alike before source source'
        (Folder.AlikeBut options.listing source source') := by
  have hwarnings : ∀ name, (a.withFile name).warnings.isEmpty = a.warnings.isEmpty ∧
      (a.withFile name).warnings.size = a.warnings.size := by
    intro name
    simp [Assembler.withFile, Array.isEmpty]
  unfold writeAll
  rw [ho, hl, (hwarnings source).1, (hwarnings source).2, (hwarnings source').1,
    (hwarnings source').2]
  cases options.output with
  | none => exact .pure fun _ _ h => h.but
  | some output =>
    apply (coupled_write output a.image.text).bind
    rintro (refusal | ⟨⟩)
    · exact (coupled_failFor output refusal).mono fun _ _ _ h => h.but
    · apply (coupled_print _).bind
      intro _
      apply (coupled_writeListing hl).bind
      rintro (refusal | ⟨⟩)
      · exact coupled_failFor options.listing refusal
      · dsimp only
        split
        · exact .pure fun _ _ => id
        · have hend : " warning(s).\n" = " warning(s)." ++ "\n" := by decide
          rw [hend, ← String.append_assoc]
          exact (coupled_complain (.note _)).bind fun _ => .pure fun _ _ => id

/-- The same text is assembled alike under both names of the source. -/
theorem coupled_assemble (ho : options'.output = options.output)
    (hl : options'.listing = options.listing) (hs : sourceName options.input = source)
    (hs' : sourceName options'.input = source') (text : String) :
    Coupled (Alike before source source' Eq) (assemble host options text)
      (assemble host options' text) fun _ => Alike before source source'
        (Folder.AlikeBut options.listing source source') := by
  unfold assemble
  dsimp only
  rw [hs, hs', Assembler.new_eq_withFile source, Assembler.new_eq_withFile source',
    Assembler.assemble_withFile, Assembler.assemble_withFile]
  rcases (Assembler.new none).assemble text with ⟨a, result⟩
  have hwarnings := @coupled_warnings before source source' Eq a.warnings.toList
  simp only [← Array.toList_map] at hwarnings
  apply hwarnings.bind
  intro _
  cases result with
  | error failure =>
    exact (coupled_failWith failure).mono fun _ _ _ h => h.but
  | ok => exact coupled_writeAll ho hl

end Assemble

end Nibble.Shell
