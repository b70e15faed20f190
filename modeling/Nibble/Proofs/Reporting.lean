import Nibble.Proofs.Arguments
import Nibble.Proofs.Outputs
import Nibble.Proofs.Running

/-! # Reports of the machine's command

A run under a limit either succeeds in silence, or reports an error and ends with status one. The
inputs for which it does neither are listed: each of them ends the command with a defect.
-/

namespace Nibble

open Text

namespace Program

variable {text : String} {c : Cause} {d : Defect}

theorem numbers?_eq_none_iff :
    numbers? text = none ↔ ∃ run ∈ runs Char.isDigit text.toList, maxDigits < run.length := by
  simp only [numbers?, mapM_eq_none_iff, numeralValue?_eq_none_iff]

theorem load_eq_defect_iff : load text = .error (.defect d) ↔
    d = .numeralTooLong ∧ ∃ run ∈ runs Char.isDigit text.toList, maxDigits < run.length := by
  rw [← numbers?_eq_none_iff, load]
  split
  next hn => simp [hn, eq_comm]
  next cells hn =>
    simp only [hn, reduceCtorEq, and_false, iff_false]
    split
    · rintro ⟨⟩
    · split <;> rintro ⟨⟩

theorem kind_of_load_eq_error (h : load text = .error (.cause c)) : c.kind = .general := by
  unfold load at h
  split at h
  · cases h
  · split at h
    · cases h
      rfl
    · split at h <;> cases h
      rfl

end Program

theorem Diagnostic.exists_text_of_general {d : Diagnostic} (h : d.cause.kind = .general) :
    ∃ rest, d.text = "Error" ++ rest := by
  unfold text headline
  rw [h, Kind.heading]
  split
  · exact ⟨": " ++ d.cause.message, by simp only [String.append_assoc]⟩
  · exact ⟨" (" ++ d.place.text ++ "): " ++ d.cause.message, by simp only [String.append_assoc]⟩

namespace Machine

variable {m : Machine}

theorem InBounds.run_some (h : m.InBounds) (n : Int) :
    ∃ m', m.run (some n) = (.halted, m') ∨ m.run (some n) = (.unfinished, m') := by
  obtain ⟨k, m', -, -, ⟨-, hr⟩ | ⟨-, -, hr⟩⟩ := h.runFor (n - m.steps).toNat
  · exact ⟨m', .inl hr⟩
  · exact ⟨m', .inr hr⟩

end Machine

namespace Shell

/-- Whether a command ended with status zero and without a complaint, or with status one after a
line that starts with the word for an error. -/
def Reported (session after : Session) (exit : Exit) : Prop :=
  exit = .status 0 ∧ after.complaints = session.complaints ∨
    exit = .status 1 ∧ ∃ rest, after.complaints = session.complaints ++ ("Error" ++ rest ++ "\n")

namespace Emulate

variable {edition : Edition} {session after : Session} {options : Options} {args : List String}
  {exit : Exit} {m m' : Machine} {n : Int} {d : Defect}

/-- Arguments that give no options ask for help or are refused. -/
theorem status_of_options?_eq_none (h : options? edition args = none)
    (hrun : (run Session.host args edition).run session = (exit, after)) :
    exit = .status 0 ∨ exit = .status 2 := by
  have hfollow : ∀ (events : List Event) (before : Options) (extras : List String),
      before.follow? events = none ∨ extras ≠ [] →
      (follow Session.host before extras events).run session = (exit, after) →
        exit = .status 0 ∨ exit = .status 2 := by
    intro events
    induction events with
    | nil =>
      intro before extras h hrun
      have hne : extras.isEmpty = false := by simpa [Options.follow?] using h
      rw [follow, hne] at hrun
      cases hrun
      exact .inr rfl
    | cons event events ih =>
      intro before extras h hrun
      cases event with
      | flag s =>
        rw [follow] at hrun
        rw [Options.follow?] at h
        split at hrun
        next hs =>
          rw [if_pos hs] at h
          exact ih _ _ h hrun
        next =>
          cases hrun
          exact .inl rfl
      | value s text =>
        cases text with
        | none => exact ih _ _ h hrun
        | some text =>
          rw [follow] at hrun
          rw [Options.follow?] at h
          split at hrun
          next n hn =>
            rw [hn] at h
            exact ih _ _ h hrun
          next =>
            cases hrun
            exact .inr rfl
      | operand text => exact ih _ _ h hrun
      | extra text => exact ih _ _ (.inr (by simp)) hrun
      | refusal message =>
        cases hrun
        exact .inr rfl
  exact hfollow _ _ _ (.inl h) hrun

theorem run_runMachine_of_halted {limit : Option Int} (h : m.run limit = (.halted, m'))
    (session : Session) : (runMachine Session.host limit m).run session =
      (.status 0, { session with output := session.output ++ m'.text }) := by
  simp only [runMachine, h]
  rfl

theorem text_stepLimit (n : Int) : (⟨.stepLimit n, .unknown⟩ : Diagnostic).text =
    "Error: step limit " ++ toString n ++ " exceeded" := by
  have hplace : Place.unknown.text.isEmpty := by decide
  have hheading : "Error: step limit " = "Error" ++ ": " ++ "step limit " := by decide
  rw [Diagnostic.text, headline, if_pos hplace, hheading]
  change "Error" ++ ": " ++ ("step limit " ++ toString n ++ " exceeded") = _
  simp only [String.append_assoc]

theorem run_runMachine_of_unfinished (h : m.run (some n) = (.unfinished, m'))
    (session : Session) : (runMachine Session.host (some n) m).run session =
      (.status 1, { session with
        output := session.output ++ m'.text
        complaints := session.complaints ++
          ("Error: step limit " ++ toString n ++ " exceeded" ++ "\n") }) := by
  rw [← text_stepLimit]
  simp only [runMachine, h]
  rfl

/--
The inputs for which a run under a limit ends without a report, and the defect that each of them
is. The standard input is taken to be decoded as strictly as a file. Only the former edition of
the rules for arguments leaves out the value of a limit.
-/
inductive Options.Undiagnosed (edition : Edition) (options : Options) (session : Session) :
    Defect → Prop
  | invalidName (hs : session.source options.program = .error .invalidName) :
    Undiagnosed edition options session .invalidName
  | undecodable {bytes : List UInt8} {fault : Utf8.Fault}
    (hs : session.source options.program = .ok bytes) (hd : Utf8.decode bytes = .error fault) :
    Undiagnosed edition options session .undecodable
  | numeralTooLong {bytes : List UInt8} {chars run : List Char}
    (hs : session.source options.program = .ok bytes) (hd : Utf8.decode bytes = .ok chars)
    (hr : run ∈ runs Char.isDigit chars) (hlen : maxDigits < run.length) :
    Undiagnosed edition options session .numeralTooLong
  | valueMissing {bytes : List UInt8} {chars : List Char} {memory : List Int}
    (hformer : edition = .former) (hl : options.limit = .missing)
    (hs : session.source options.program = .ok bytes) (hd : Utf8.decode bytes = .ok chars)
    (hm : Program.load (String.ofList chars) = .ok memory) :
    Undiagnosed edition options session .valueMissing

theorem run_start_of_undiagnosed (h : options.Undiagnosed edition session d) :
    (start Session.host options).run session = (.defect d, session) := by
  rw [start, run_readSource_bind]
  cases h with
  | invalidName hs =>
    rw [hs]
    rfl
  | undecodable hs hd =>
    simp only [hs, hd]
    rfl
  | @numeralTooLong bytes chars run hs hd hr hlen =>
    have hm : Program.load (String.ofList chars) = .error (.defect .numeralTooLong) :=
      Program.load_eq_defect_iff.mpr ⟨rfl, run, by rwa [String.toList_ofList], hlen⟩
    simp only [hs, hd, hm]
    rfl
  | valueMissing hformer hl hs hd hm =>
    simp only [hs, hd, hm, hl]
    rfl

theorem reported_of_run_fail {message : String} (hm : ∃ rest, message = "Error" ++ rest)
    (h : (Session.host.fail message).run session = (exit, after)) :
    Reported session after exit := by
  obtain ⟨rest, rfl⟩ := hm
  cases h
  exact .inr ⟨rfl, rest, rfl⟩

theorem reported_of_run_runMachine {m : Machine} (hm : m.InBounds)
    (h : (runMachine Session.host (some n) m).run session = (exit, after)) :
    Reported session after exit := by
  obtain ⟨m', hr | hr⟩ := hm.run_some n
  · rw [run_runMachine_of_halted hr] at h
    cases h
    exact .inl ⟨rfl, rfl⟩
  · rw [run_runMachine_of_unfinished hr] at h
    cases h
    refine .inr ⟨rfl, ": step limit " ++ toString n ++ " exceeded", ?_⟩
    have hheading : "Error: step limit " = "Error" ++ ": step limit " := by decide
    simp only [hheading, String.append_assoc]

theorem reported_or_undiagnosed_of_run_start (hl : options.limit ≠ .unlimited)
    (hedition : options.limit = .missing → edition = .former)
    (h : (start Session.host options).run session = (exit, after)) :
    Reported session after exit ∨
      ∃ d, exit = .defect d ∧ options.Undiagnosed edition session d := by
  rw [start, run_readSource_bind] at h
  split at h
  next refusal hs =>
    cases refusal with
    | invalidName =>
      cases h
      exact .inr ⟨_, rfl, .invalidName hs⟩
    | system code reason =>
      have hheading : "Error: [Errno " = "Error" ++ ": [Errno " := by decide
      refine .inl (reported_of_run_fail ⟨": [Errno " ++ toString code ++ "] " ++ reason ++ ": " ++
        quoted options.program, ?_⟩ h)
      simp only [hheading, String.append_assoc]
  next bytes hs =>
    split at h
    next fault hd =>
      cases h
      exact .inr ⟨_, rfl, .undecodable hs hd⟩
    next chars hd =>
      split at h
      next fault hm =>
        cases fault with
        | cause c =>
          have hc : c.kind = .general := Program.kind_of_load_eq_error hm
          exact .inl (reported_of_run_fail (Diagnostic.exists_text_of_general hc) h)
        | defect d =>
          obtain ⟨rfl, run, hr, hlen⟩ := Program.load_eq_defect_iff.mp hm
          rw [String.toList_ofList] at hr
          cases h
          exact .inr ⟨_, rfl, .numeralTooLong hs hd hr hlen⟩
      next memory hm =>
        dsimp only at h
        split at h
        next hunlimited => exact absurd hunlimited hl
        next n _ =>
          have hboot := Machine.inBounds_boot_of_load options.bellStyle hm
          exact .inl (reported_of_run_runMachine hboot h)
        next hmissing =>
          cases h
          exact .inr ⟨_, rfl, .valueMissing (hedition hmissing) hmissing hs hd hm⟩

/--
Arguments are refused or ask for help, or give options. A run with options that have a limit is
reported, unless it is one of the undiagnosed inputs, and then it ends with their defect.
-/
theorem reported_or_undiagnosed_of_run
    (h : (run Session.host args edition).run session = (exit, after)) :
    (options? edition args = none → exit = .status 0 ∨ exit = .status 2) ∧
      ∀ options, options? edition args = some options → options.limit ≠ .unlimited →
        (Reported session after exit ∨ ∃ d, exit = .defect d) ∧
          ∀ d, exit = .defect d ↔ options.Undiagnosed edition session d := by
  constructor
  · intro hnone
    exact status_of_options?_eq_none hnone h
  · intro options hoptions hl
    rw [run_of_options? _ hoptions] at h
    have hcases := reported_or_undiagnosed_of_run_start hl (edition_of_options? hoptions) h
    constructor
    · apply hcases.imp_right
      rintro ⟨d, hd, -⟩
      exact ⟨d, hd⟩
    · intro d
      constructor
      · rintro rfl
        rcases hcases with (⟨⟨⟩, -⟩ | ⟨⟨⟩, -⟩) | ⟨d', hd', hu⟩
        cases hd'
        exact hu
      · intro hu
        rw [run_start_of_undiagnosed hu] at h
        exact (congrArg Prod.fst h).symm

/-- A program with a number that is no word, under a limit of no step. -/
theorem reported_or_undiagnosed_of_run_too_large :
    let session : Session := ⟨Folder.empty.addEntry "p" (Utf8.encode "16"), [], "", ""⟩
    let options : Options := ⟨"p", .ring, .steps 0⟩
    let args := ["p", "--max-steps", "0"]
    ∃ after, (run Session.host args .current).run session = (.status 1, after) ∧
      options? .current args = some options ∧ options.limit ≠ .unlimited ∧
      (Reported session after (.status 1) ∨ ∃ d, Exit.status 1 = .defect d) ∧
        ∀ d, Exit.status 1 = .defect d ↔ options.Undiagnosed .current session d := by
  intro session options args
  have hexit : ((run Session.host args .current).run session).1 = .status 1 := by decide +kernel
  have hoptions : options? .current args = some options := by decide +kernel
  have hl : options.limit ≠ .unlimited := by rintro ⟨⟩
  exact ⟨_, Prod.ext hexit rfl, hoptions, hl,
    (reported_or_undiagnosed_of_run (Prod.ext hexit rfl)).2 options hoptions hl⟩

/-- A program whose only byte begins no character. -/
theorem not_reported_of_run_undecodable : ¬ ∃ edition : Edition, ∀ (session after : Session)
    (args : List String) (options : Options) (exit : Exit), options? edition args = some options →
      options.limit ≠ .unlimited → (run Session.host args edition).run session = (exit, after) →
        Reported session after exit := by
  rintro ⟨edition, h⟩
  let session : Session := ⟨Folder.empty.addEntry "p" [0xff], [], "", ""⟩
  have hexit : ((run Session.host ["p", "--max-steps", "5"] edition).run session).1 =
      .defect .undecodable := by
    cases edition <;> decide +kernel
  have hoptions : options? edition ["p", "--max-steps", "5"] = some ⟨"p", .ring, .steps 5⟩ := by
    cases edition <;> decide +kernel
  rcases h session _ _ _ _ hoptions (by rintro ⟨⟩) (Prod.ext hexit rfl) with ⟨⟨⟩, -⟩ | ⟨⟨⟩, -⟩

end Emulate

end Shell

end Nibble
