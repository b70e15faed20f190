import Nibble.Proofs.Decoding
import Nibble.Proofs.Folders
import Nibble.Proofs.Reporting
import Nibble.Proofs.SourceName

/-! # The two commands in a row

An image that the assembler's command has written is read by the machine's command as the memory
that was assembled, so that the machine runs the assembled text.
-/

namespace Nibble

open Text

namespace Assembler

variable {file : Option String} {text : String} {a : Assembler}

theorem words_of_assemble (h : (new file).assemble text = (a, .ok ())) :
    ∃ words : List Nat, words.length = memorySize ∧ (∀ n ∈ words, n ≤ wordLimit) ∧
      a.image.memory = words.map fun n => .value n := by
  obtain ⟨b, image, hr, hb, rfl⟩ := assemble_eq_ok_iff.mp h
  have hholds := ((holds_new file).of_feed hb).1
  exact Image.Packed.words_of_resolve (hholds.image ▸ hholds.fits.packed) hr

theorem exists_assemble_of_assemble (h : (new file).assemble text = (a, .ok ()))
    (file' : Option String) :
    ∃ a', (new file').assemble text = (a', .ok ()) ∧ a'.image = a.image := by
  rw [new_eq_withFile, assemble_withFile] at h ⊢
  generalize (new none).assemble text = result at h ⊢
  obtain ⟨b, failure | ⟨⟩⟩ := result
  · cases h
  · cases h
    exact ⟨_, rfl, rfl⟩

end Assembler

namespace Shell

namespace Assemble

/-- Whether the image is written, and then the listing if one is wanted. -/
def Options.Written (options : Options) (a : Assembler) (before after : Folder) : Prop :=
  ∃ output imaged, options.output = some output ∧
    before.write output (Utf8.encode a.image.text) = .ok imaged ∧
      (options.listing = "" ∧ after = imaged ∨ imaged.write options.listing
        (Utf8.encode (a.listing (sourceName options.input))) = .ok after)

variable {session after : Session} {options : Options} {a : Assembler}

theorem write_of_run_writeListing_ok {source : String}
    (h : (writeListing Session.host options a source).run session = (.ok (), after)) :
    options.listing = "" ∧ after.folder = session.folder ∨
      session.folder.write options.listing (Utf8.encode (a.listing source)) =
        .ok after.folder := by
  unfold writeListing at h
  split at h
  next hnone =>
    cases h
    exact .inl ⟨hnone, rfl⟩
  next =>
    obtain ⟨written, between, hwrite, h⟩ := exists_of_run_bind h
    cases written with
    | error refusal => cases h
    | ok =>
      have hlisted := write_of_run_ok hwrite
      cases h
      exact .inr hlisted

theorem written_of_run_writeAll
    (h : (writeAll Session.host options a (sourceName options.input)).run session =
      (.status 0, after)) : options.Written a session.folder after.folder := by
  unfold writeAll at h
  split at h
  next => cases h
  next output ho =>
    obtain ⟨written, imaged, hwrite, hreport⟩ := exists_of_run_bind h
    cases written with
    | error refusal => cases refusal <;> cases hreport
    | ok =>
      obtain ⟨_, reported, hprint, hlist⟩ := exists_of_run_bind hreport
      obtain ⟨listed, ended, hlist, hend⟩ := exists_of_run_bind hlist
      cases listed with
      | error refusal => cases refusal <;> cases hend
      | ok =>
        have hfolder := (keeps_print _).folder_eq hprint
        have hended : after.folder = ended.folder := by
          dsimp only at hend
          split at hend <;> cases hend <;> rfl
        have hlisted := write_of_run_writeListing_ok hlist
        rw [hfolder, ← hended] at hlisted
        exact ⟨output, imaged.folder, ho, write_of_run_ok hwrite, hlisted⟩

/-- A run that ends with status zero has assembled its source and written what was asked for. -/
theorem written_of_run_start
    (h : (start Session.host options).run session = (.status 0, after)) :
    ∃ a, options.Assembles session a ∧ options.Written a session.folder after.folder := by
  rw [start, run_readSource_bind] at h
  split at h
  next refusal _ => cases refusal <;> cases h
  next bytes hbytes =>
    split at h
    next => cases h
    next chars hchars =>
      unfold assemble at h
      cases ha : (Assembler.new (sourceName options.input)).assemble
        (sourceText options.input chars) with
      | mk a result =>
        simp only [ha] at h
        obtain ⟨_, warned, hwarn, hend⟩ := exists_of_run_bind h
        cases result with
        | error failure => cases failure <;> cases hend
        | ok =>
          have hall := written_of_run_writeAll hend
          rw [(keeps_complaints _ _).folder_eq hwarn] at hall
          exact ⟨a, ⟨bytes, chars, hbytes, hchars, ha⟩, hall⟩

/-- An image in an ordinary file can be read, if the listing was not written over it. -/
theorem Options.Written.read {output : String} {before after : Folder}
    (h : options.Written a before after) (ho : options.output = some output)
    (hordinary : before.path? output ≠ some Folder.nullDevice)
    (hapart : ¬ before.SameFile output options.listing) :
    after.read output = .ok (Utf8.encode a.image.text) := by
  obtain ⟨output', imaged, ho', hwrite, hlist⟩ := h
  obtain rfl : output' = output := Option.some.inj (ho'.symm.trans ho)
  have hread := Folder.read_of_write hwrite hordinary
  rcases hlist with ⟨-, rfl⟩ | hlist
  · exact hread
  · obtain ⟨path, -, rfl⟩ := Folder.exists_path_of_write hwrite
    apply Folder.read_of_write_of_not_sameFile hlist _ hread
    unfold Folder.SameFile
    simp only [Folder.path?_put]
    exact hapart

end Assemble

namespace Emulate

open Session

variable {edition : Edition} {session middle : Session} {args : List String}
  {source output listing : String}

theorem run_arguments_of_read {words : List Nat} {image : Image} (ho : IsPlain output)
    (hm : image.memory = words.map fun n => .value n) (hlen : words.length = memorySize)
    (hall : ∀ n ∈ words, n ≤ wordLimit)
    (hr : session.folder.read output = .ok (Utf8.encode image.text)) (style : BellStyle) {n : Int}
    (hn : (Nat.toDigits 10 n.natAbs).length ≤ maxDigits) :
    (run host (arguments output style n) edition).run session =
      (runMachine host (some n) (.boot (words.map Int.ofNat) style)).run session := by
  have hne : output ≠ "-" := by
    rintro rfl
    exact ho rfl
  have hs : session.source output = .ok (Utf8.encode image.text) := by
    rw [Session.source, if_neg hne, hr]
  have hload : Program.load (String.ofList image.text.toList) = .ok (words.map Int.ofNat) := by
    rw [String.ofList_toList, Image.load_text hm hlen hall]
  rw [run_of_options? host (options?_arguments ho style hn), start, run_readSource_bind]
  simp only [hs, Utf8.decode_encode, hload]

/--
An image that the assembler's command has written into an ordinary file is not refused: the
machine's command runs it as the machine runs the memory of the assembled text, whatever name its
source is given. What the machine sends to its console is printed, and the status tells whether it
has halted within the limit.
-/
theorem run_arguments_of_run_assemble
    (hargs : Assemble.options? edition args = some ⟨source, some output, listing⟩) (hsource : source ≠ "-")
    (ho : IsPlain output)
    (h : (Assemble.run host args edition).run session = (.status 0, middle))
    (hordinary : session.folder.path? output ≠ some Folder.nullDevice)
    (hapart : ¬ session.folder.SameFile output listing) :
    ∃ (bytes : List UInt8) (chars : List Char) (memory : List Int),
      session.folder.read source = .ok bytes ∧ Utf8.decode bytes = .ok chars ∧
      (∀ file, ∃ a, (Assembler.new file).assemble (String.ofList (unifyLineEnds chars)) =
        (a, .ok ()) ∧ a.image.memory = memory.map Cell.value) ∧
      ∀ (later : Session) (style : BellStyle) (n : Int), later.folder = middle.folder →
        (Nat.toDigits 10 n.natAbs).length ≤ maxDigits →
        ∃ m, ((Machine.boot memory style).run (some n) = (.halted, m) ∧
            (run host (arguments output style n) edition).run later =
              (.status 0, { later with output := later.output ++ m.text })) ∨
          ((Machine.boot memory style).run (some n) = (.unfinished, m) ∧
            (run host (arguments output style n) edition).run later =
              (.status 1, { later with
                output := later.output ++ m.text
                complaints := later.complaints ++
                  ("Error: step limit " ++ toString n ++ " exceeded" ++ "\n") })) := by
  rw [Assemble.run_of_options? host hargs] at h
  obtain ⟨a, ⟨bytes, chars, hbytes, hchars, ha⟩, hwritten⟩ := Assemble.written_of_run_start h
  rw [Session.source, if_neg hsource] at hbytes
  rw [Assemble.sourceText, if_neg hsource] at ha
  obtain ⟨words, hlen, hall, hm⟩ := Assembler.words_of_assemble ha
  have hread := hwritten.read rfl hordinary hapart
  refine ⟨bytes, chars, words.map Int.ofNat, hbytes, hchars, ?_, ?_⟩
  · intro file
    obtain ⟨a', ha', himage⟩ := Assembler.exists_assemble_of_assemble ha file
    refine ⟨a', ha', ?_⟩
    rw [himage, hm, List.map_map]
    rfl
  · intro later style n hfolder hn
    have hload := Image.load_text hm hlen hall
    rw [run_arguments_of_read ho hm hlen hall (hfolder ▸ hread) style hn]
    obtain ⟨m, hr | hr⟩ := (Machine.inBounds_boot_of_load style hload).run_some n
    · exact ⟨m, .inl ⟨hr, run_runMachine_of_halted hr later⟩⟩
    · exact ⟨m, .inr ⟨hr, run_runMachine_of_unfinished hr later⟩⟩

/-- A bell, assembled with a listing and run for at most five steps. -/
theorem run_arguments_of_run_assemble_bell :
    let session : Session := ⟨Folder.empty.addEntry "a.s" (Utf8.encode "bell"), [], "", ""⟩
    let args := Assemble.arguments "a.s" "p" "l"
    ∃ middle, Assemble.options? .current args = some ⟨"a.s", some "p", "l"⟩ ∧ "a.s" ≠ "-" ∧ IsPlain "p" ∧
      (Assemble.run host args .current).run session = (.status 0, middle) ∧
      session.folder.path? "p" ≠ some Folder.nullDevice ∧ ¬ session.folder.SameFile "p" "l" ∧
      (Nat.toDigits 10 (5 : Int).natAbs).length ≤ maxDigits ∧
      ∃ (memory : List Int) (m : Machine),
        ((Machine.boot memory .spell).run (some 5) = (.halted, m) ∧
          (run host (arguments "p" .spell 5) .current).run middle =
            (.status 0, { middle with output := middle.output ++ m.text })) ∨
        ((Machine.boot memory .spell).run (some 5) = (.unfinished, m) ∧
          (run host (arguments "p" .spell 5) .current).run middle =
            (.status 1, { middle with
              output := middle.output ++ m.text
              complaints := middle.complaints ++
                ("Error: step limit " ++ toString (5 : Int) ++ " exceeded" ++ "\n") })) := by
  intro session args
  have hargs : Assemble.options? .current args = some ⟨"a.s", some "p", "l"⟩ :=
    Assemble.options?_arguments (by decide) (by decide) (by decide)
  have hexit : ((Assemble.run host args .current).run session).1 = .status 0 := by decide +kernel
  have hordinary : session.folder.path? "p" ≠ some Folder.nullDevice := by decide +kernel
  have hapart : ¬ session.folder.SameFile "p" "l" := by
    have hne : session.folder.path? "p" ≠ session.folder.path? "l" := by decide +kernel
    rintro ⟨path, hp, hl⟩
    exact hne (hp.trans hl.symm)
  have hn : (Nat.toDigits 10 (5 : Int).natAbs).length ≤ maxDigits := by decide
  obtain ⟨_, _, memory, -, -, -, hrun⟩ := run_arguments_of_run_assemble hargs (by decide)
    (by decide) (Prod.ext hexit rfl) hordinary hapart
  exact ⟨_, hargs, by decide, by decide, Prod.ext hexit rfl, hordinary, hapart, hn, memory,
    hrun _ .spell 5 rfl hn⟩

/-- A limit of one and as many zeros as a numeral may have digits. -/
theorem not_run_arguments_of_run_assemble : ¬ ∃ edition : Edition, ∀ (session middle : Session)
    (args : List String) (source output listing : String) (style : BellStyle) (n : Int),
      Assemble.options? edition args = some ⟨source, some output, listing⟩ → source ≠ "-" →
      IsPlain output → (Assemble.run host args edition).run session = (.status 0, middle) →
      session.folder.path? output ≠ some Folder.nullDevice →
      ¬ session.folder.SameFile output listing →
        ((run host (arguments output style n) edition).run middle).1 = .status 0 ∨
          ((run host (arguments output style n) edition).run middle).1 = .status 1 := by
  rintro ⟨edition, h⟩
  let session : Session := ⟨Folder.empty.addEntry "a.s" (Utf8.encode "halt"), [], "", ""⟩
  have hargs : Assemble.options? edition ["a.s", "-o", "p"] = some ⟨"a.s", some "p", ""⟩ := by
    cases edition <;> decide +kernel
  have hexit : ((Assemble.run host ["a.s", "-o", "p"] edition).run session).1 = .status 0 := by
    cases edition <;> decide +kernel
  have hordinary : session.folder.path? "p" ≠ some Folder.nullDevice := by decide +kernel
  have hapart : ¬ session.folder.SameFile "p" "" := by
    rintro ⟨path, -, hnone⟩
    cases hnone
  have hlong : maxDigits < (Nat.toDigits 10 (Nat.pow 10 maxDigits : Int).natAbs).length := by
    rw [Int.natAbs_natCast]
    exact lt_length_toDigits_pow (by decide)
  have hends := h session _ _ _ _ _ .ring (Nat.pow 10 maxDigits) hargs (by decide) (by decide)
    (Prod.ext hexit rfl) hordinary hapart
  rw [run_arguments_of_lt host (by decide) .ring hlong] at hends
  have hstatus : ∀ (message : String) (s : Session),
      ((host.failUsage usage command message).run s).1 = .status 2 := fun _ _ => rfl
  rw [hstatus] at hends
  rcases hends with ⟨⟨⟩⟩ | ⟨⟨⟩⟩

end Emulate

end Shell

end Nibble
