import Nibble.Assembler
import Nibble.Shell.Assemble
import Nibble.Shell.Session

/-! # Outputs

The assembler's command writes nothing until its source is assembled, and then the image before
the listing. A run that fails leaves the folder as it was, unless it fails at the listing: the
image has been written by then.
-/

namespace Nibble.Shell

open Text

/-- The bytes of a source in a session. -/
def Session.source (session : Session) (argument : String) : Except Refusal (List UInt8) :=
  if argument = "-" then .ok session.input else session.folder.read argument

section Sessions

variable {α β : Type} {action : StateM Session α} {next : α → StateM Session β} {x : α} {y : β}
  {session after : Session} {name content : String} {refusal : Refusal}

theorem exists_of_run_bind (h : (action >>= next).run session = (y, after)) :
    ∃ x between, action.run session = (x, between) ∧ (next x).run between = (y, after) :=
  ⟨_, _, rfl, h⟩

theorem run_readSource (argument : String) (session : Session) :
    (Session.host.readSource argument).run session = (session.source argument, session) := by
  unfold Host.readSource Session.source
  split <;> rfl

theorem run_readSource_bind (argument : String) (session : Session)
    (next : Except Refusal (List UInt8) → StateM Session β) :
    (Session.host.readSource argument >>= next).run session =
      (next (session.source argument)).run session := by
  rw [StateT.run_bind, run_readSource]
  rfl

theorem run_write (name content : String) (session : Session) :
    (Session.host.write name content).run session =
      match session.folder.write name (Utf8.encode content) with
      | .ok folder => (.ok (), { session with folder })
      | .error refusal => (.error refusal, session) := by
  cases h : session.folder.write name (Utf8.encode content) <;> simp [Session.host, h] <;> rfl

theorem write_of_run_ok (h : (Session.host.write name content).run session = (.ok (), after)) :
    session.folder.write name (Utf8.encode content) = .ok after.folder := by
  rw [run_write] at h
  split at h
  next hw =>
    cases h
    exact hw
  next => cases h

theorem write_of_run_error
    (h : (Session.host.write name content).run session = (.error refusal, after)) :
    session.folder.write name (Utf8.encode content) = .error refusal ∧ after = session := by
  rw [run_write] at h
  split at h
  next => cases h
  next hw =>
    cases h
    exact ⟨hw, rfl⟩

/-- An action that leaves the folder of a session as it is. -/
def Keeps (action : StateM Session α) : Prop :=
  ∀ session : Session, (action.run session).2.folder = session.folder

theorem Keeps.folder_eq (h : Keeps action) (hr : action.run session = (x, after)) :
    after.folder = session.folder := by
  have hk := h session
  rwa [hr] at hk

theorem Keeps.pure (x : α) : Keeps (Pure.pure x : StateM Session α) := fun _ => rfl

theorem Keeps.bind (h : Keeps action) (hn : ∀ x, Keeps (next x)) : Keeps (action >>= next) :=
  fun session => (hn _ _).trans (h session)

theorem keeps_print (text : String) : Keeps (Session.host.print text) := fun _ => rfl

theorem keeps_complain (text : String) : Keeps (Session.host.complain text) := fun _ => rfl

theorem keeps_complaints (text : α → String) (xs : List α) :
    Keeps (xs.forM fun x => Session.host.complain (text x)) := by
  induction xs with
  | nil => exact .pure _
  | cons x xs ih => exact (keeps_complain _).bind fun _ => ih

theorem keeps_fail (message : String) : Keeps (Session.host.fail message) :=
  (keeps_complain _).bind fun _ => .pure _

theorem keeps_failWith (failure : Failure) : Keeps (Session.host.failWith failure) := by
  cases failure with
  | diagnostic d => exact keeps_fail _
  | defect d => exact .pure _

theorem keeps_failFor (name : String) (refusal : Refusal) :
    Keeps (Session.host.failFor name refusal) := by
  cases refusal with
  | system code reason => exact keeps_fail _
  | invalidName => exact .pure _

theorem keeps_failUsage (usage command message : String) :
    Keeps (Session.host.failUsage usage command message) :=
  (keeps_complain _).bind fun _ => .pure _

end Sessions

namespace Assemble

/-- Whether the source is read and assembled. -/
def Options.Assembles (options : Options) (session : Session) (a : Assembler) : Prop :=
  ∃ bytes chars, session.source options.input = .ok bytes ∧ Utf8.decode bytes = .ok chars ∧
    (Assembler.new (sourceName options.input)).assemble (sourceText options.input chars) =
      (a, .ok ())

/-- Whether the image is written and the listing is then refused. -/
def Options.HalfWritten (options : Options) (a : Assembler) (before after : Folder) : Prop :=
  ∃ output refusal, options.output = some output ∧ options.listing ≠ "" ∧
    before.write output (Utf8.encode a.image.text) = .ok after ∧
    after.write options.listing (Utf8.encode (a.listing (sourceName options.input))) =
      .error refusal

variable {edition : Edition} {session after : Session} {options : Options} {a : Assembler}
  {exit : Exit}

theorem write_of_run_writeListing_error {source : String} {refusal : Refusal}
    (h : (writeListing Session.host options a source).run session = (.error refusal, after)) :
    after = session ∧ options.listing ≠ "" ∧
      session.folder.write options.listing (Utf8.encode (a.listing source)) = .error refusal := by
  unfold writeListing at h
  split at h
  next => cases h
  next hl =>
    obtain ⟨written, between, hw, h⟩ := exists_of_run_bind h
    cases written with
    | ok => cases h
    | error =>
      cases h
      obtain ⟨hw, rfl⟩ := write_of_run_error hw
      exact ⟨rfl, hl, hw⟩

/-- Writing fails before anything is written, or at the listing. -/
theorem unchanged_or_halfWritten_of_run_writeAll
    (h : (writeAll Session.host options a (sourceName options.input)).run session = (exit, after))
    (hexit : exit ≠ .status 0) :
    after.folder = session.folder ∨ options.HalfWritten a session.folder after.folder := by
  unfold writeAll at h
  split at h
  next =>
    cases h
    exact .inl rfl
  next output ho =>
    obtain ⟨written, imaged, hwrite, hreport⟩ := exists_of_run_bind h
    cases written with
    | error refusal =>
      have hkept := (keeps_failFor output refusal).folder_eq hreport
      exact .inl (hkept.trans (congrArg _ (write_of_run_error hwrite).2))
    | ok =>
      obtain ⟨_, reported, hprint, hlist⟩ := exists_of_run_bind hreport
      obtain ⟨listed, ended, hlist, hend⟩ := exists_of_run_bind hlist
      have hfolder := (keeps_print _).folder_eq hprint
      cases listed with
      | error refusal =>
        obtain ⟨rfl, hwanted, hrefused⟩ := write_of_run_writeListing_error hlist
        have hended := (keeps_failFor options.listing refusal).folder_eq hend
        rw [hfolder] at hended hrefused
        refine .inr ⟨output, refusal, ho, hwanted, ?_, ?_⟩
        · rw [hended]
          exact write_of_run_ok hwrite
        · rw [hended]
          exact hrefused
      | ok =>
        -- only the warnings are still counted
        dsimp only at hend
        split at hend <;> cases hend <;> exact absurd rfl hexit

theorem unchanged_or_halfWritten_of_run_start
    (h : (start Session.host options).run session = (exit, after)) (hexit : exit ≠ .status 0) :
    after.folder = session.folder ∨
      ∃ a, options.Assembles session a ∧ options.HalfWritten a session.folder after.folder := by
  unfold start at h
  obtain ⟨source, between, hr, h⟩ := exists_of_run_bind h
  rw [run_readSource] at hr
  cases hr
  split at h
  next refusal _ => exact .inl ((keeps_failFor _ refusal).folder_eq h)
  next bytes hbytes =>
    split at h
    next => exact .inl ((keeps_fail _).folder_eq h)
    next chars hchars =>
      unfold assemble at h
      cases ha : (Assembler.new (sourceName options.input)).assemble
        (sourceText options.input chars) with
      | mk a result =>
        simp only [ha] at h
        obtain ⟨_, warned, hwarn, hend⟩ := exists_of_run_bind h
        have hwarned := (keeps_complaints _ _).folder_eq hwarn
        cases result with
        | error failure => exact .inl (((keeps_failWith failure).folder_eq hend).trans hwarned)
        | ok =>
          have hall := unchanged_or_halfWritten_of_run_writeAll hend hexit
          rw [hwarned] at hall
          exact hall.imp_right fun hhalf => ⟨a, ⟨bytes, chars, hbytes, hchars, ha⟩, hhalf⟩

/-- Reading the arguments leaves the folder alone, or ends in a start with some options. -/
theorem keeps_or_exists_start_of_follow (options : Options) (extras : List String)
    (events : List Event) : Keeps (follow Session.host options extras events) ∨
      ∃ options', follow Session.host options extras events = start Session.host options' := by
  induction events generalizing options extras with
  | nil =>
    unfold follow
    split
    · exact .inr ⟨options, rfl⟩
    · exact .inl (keeps_failUsage _ _ _)
  | cons event events ih =>
    cases event with
    | flag s => exact .inl ((keeps_print _).bind fun _ => .pure _)
    | value s text => exact ih _ _
    | operand text => exact ih _ _
    | extra text => exact ih _ _
    | refusal message => exact .inl (keeps_failUsage _ _ _)

/--
A run that does not end with status zero leaves the folder as it was, unless the image has been
written and the listing is refused. The arguments are text, and a file is refused only as it is
opened: a disk that fills up while a file is written, or an output that cannot be printed to, lies
outside of the model.
-/
theorem unchanged_or_halfWritten_of_run {args : List String}
    (h : (run Session.host args edition).run session = (exit, after)) (hexit : exit ≠ .status 0) :
    after.folder = session.folder ∨
      ∃ options a, run Session.host args edition = start Session.host options ∧
        options.Assembles session a ∧ options.HalfWritten a session.folder after.folder := by
  have hfollow := keeps_or_exists_start_of_follow defaults [] (events edition switches args)
  rcases hfollow with hk | ⟨options, hs⟩
  · exact .inl (hk.folder_eq h)
  · have hstart : run Session.host args edition = start Session.host options := hs
    rw [hstart] at h
    refine (unchanged_or_halfWritten_of_run_start h hexit).imp_right ?_
    rintro ⟨a, ha, hhalf⟩
    exact ⟨options, a, hstart, ha, hhalf⟩

/-- A jump to a symbol that is not bound. -/
theorem unchanged_or_halfWritten_of_run_undefined :
    let session : Session :=
      ⟨Folder.empty.addEntry "a.s" (Utf8.encode "halt\njmp missing"), [], "", ""⟩
    ∃ after, (run Session.host ["a.s", "-l", "a.lst"] .current).run session = (.status 1, after) ∧
      Exit.status 1 ≠ .status 0 ∧ (after.folder = session.folder ∨
        ∃ options a, run Session.host ["a.s", "-l", "a.lst"] .current = start Session.host options ∧
          options.Assembles session a ∧
          options.HalfWritten a session.folder after.folder) := by
  intro session
  have hexit : ((run Session.host ["a.s", "-l", "a.lst"] .current).run session).1 = .status 1 := by
    decide +kernel
  have hne : Exit.status 1 ≠ .status 0 := by decide
  exact ⟨_, Prod.ext hexit rfl, hne, unchanged_or_halfWritten_of_run (Prod.ext hexit rfl) hne⟩

/-- A listing that is to be written over a folder. -/
theorem not_unchanged_of_run_listing : ¬ ∃ edition : Edition,
    ∀ (session after : Session) (args : List String) (exit : Exit),
      (run Session.host args edition).run session = (exit, after) → exit ≠ .status 0 →
        ∀ path, after.folder.file? path = session.folder.file? path := by
  rintro ⟨edition, h⟩
  let session : Session :=
    ⟨(Folder.empty.addEntry "a.s" (Utf8.encode "halt")).addEntry "dir/" [], [], "", ""⟩
  have hexit : ((run Session.host ["a.s", "-l", "dir"] edition).run session).1 = .status 1 := by
    cases edition <;> decide +kernel
  have himage : ((run Session.host ["a.s", "-l", "dir"] edition).run session).2.folder.file?
      ["out.4"] ≠ session.folder.file? ["out.4"] := by
    cases edition <;> decide +kernel
  exact himage (h session _ _ _ (Prod.ext hexit rfl) (by decide) ["out.4"])

end Assemble

end Nibble.Shell
