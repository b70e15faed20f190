import Mathlib.Data.List.TakeWhile
import Nibble.Proofs.Numeral
import Nibble.Proofs.Outcome
import Nibble.Shell.Assemble
import Nibble.Shell.Emulate

/-! # Arguments

The options that a command reads from its arguments, if it accepts them. An argument without a
hyphen in front is an operand or a value, and so is an integer in decimal digits.
-/

namespace Nibble

open Text

namespace Text

/-! ## Integers in decimal digits -/

variable {s : List Char} {c : Char}

theorem decimalDigit?_of_isDigit (h : c.isDigit) : decimalDigit? c = some (digitValue c) := by
  obtain ⟨hlo, hhi⟩ : 48 ≤ c.toNat ∧ c.toNat ≤ 57 := Char.isDigit_iff_toNat.mp h
  have hfirst : decimalZeros.find? (fun first => first ≤ c.toNat && c.toNat < first + 10) =
      some 48 := by
    rw [decimalZeros, List.find?_cons_of_pos]
    simp [hlo, Nat.lt_succ_of_le hhi]
  rw [decimalDigit?, hfirst]
  rfl

theorem separatedDigits?_of_isDigit (hne : s ≠ []) (h : ∀ c ∈ s, c.isDigit) :
    separatedDigits? s = some (s.map digitValue) := by
  induction s with
  | nil => exact absurd rfl hne
  | cons c s ih =>
    obtain ⟨hc, hs⟩ := List.forall_mem_cons.mp h
    cases s with
    | nil =>
      rw [separatedDigits?, decimalDigit?_of_isDigit hc]
      rfl
    | cons d s =>
      have hd : d ≠ '_' := by
        rintro rfl
        exact absurd (hs '_' (.head _)) (by decide)
      rw [separatedDigits?, decimalDigit?_of_isDigit hc, ih (List.cons_ne_nil d s) hs]
      · rfl
      · rintro ⟨⟩
      · rintro rest he
        cases he
        exact hd rfl

theorem isIntegerBlank_of_isDigit (h : c.isDigit) : isIntegerBlank c = false := by
  obtain ⟨hlo, hhi⟩ : 48 ≤ c.toNat ∧ c.toNat ≤ 57 := Char.isDigit_iff_toNat.mp h
  have hspace : c ≠ ' ' := by
    rintro rfl
    exact absurd hlo (by decide)
  have hcontrol : ¬ c.toNat ≤ 0x0D := by omega
  have hhigh : ¬ 0x80 ≤ c.toNat := by omega
  simp [isIntegerBlank, isAsciiBlank, hspace, hcontrol, hhigh]

theorem trimEnd_of_forall {p : Char → Bool} (h : ∀ c ∈ s, p c = false) :
    trimEnd p (s.dropWhile p) = s := by
  have hdrop : ∀ t : List Char, (∀ c ∈ t, p c = false) → t.dropWhile p = t := by
    intro t ht
    apply List.dropWhile_eq_self_iff.mpr
    intro hl
    simp [ht _ (List.getElem_mem hl)]
  rw [hdrop s h, trimEnd, hdrop _ fun c hc => h c (List.mem_reverse.mp hc), List.reverse_reverse]

theorem isDigit_of_mem_toDigits {n : Nat} (h : c ∈ Nat.toDigits 10 n) : c.isDigit :=
  Nat.isDigit_of_mem_toDigits (by decide) (Nat.le_refl 10) h

theorem toList_toString_negSucc (n : Nat) :
    (toString (Int.negSucc n)).toList = '-' :: Nat.toDigits 10 (n + 1) := by
  change ("-" ++ toString (n + 1)).toList = _
  rw [String.toList_append, Nat.toString_eq_ofList_toDigits, String.toList_ofList,
    String.toList_ofList]
  rfl

theorem splitSign_of_isDigit (h : ∀ c ∈ s, c.isDigit) : splitSign s = (false, s) := by
  unfold splitSign
  split
  · exact absurd (h '-' (.head _)) (by decide)
  · exact absurd (h '+' (.head _)) (by decide)
  · rfl

theorem lt_length_toDigits_pow {k : Nat} (hk : 0 < k) :
    k < (Nat.toDigits 10 (Nat.pow 10 k)).length := by
  apply Nat.lt_of_not_le
  intro hle
  exact Nat.lt_irrefl _ ((Nat.length_toDigits_le_iff (by decide) hk).mp hle)

/-- An integer in decimal digits is read, unless it has too many of them. -/
theorem integer?_toString (n : Int) : integer? (toString n) =
    if (Nat.toDigits 10 n.natAbs).length ≤ maxDigits then some n else none := by
  have hblank : ∀ k, ∀ c ∈ Nat.toDigits 10 k, isIntegerBlank c = false := fun k c hc =>
    isIntegerBlank_of_isDigit (isDigit_of_mem_toDigits hc)
  have hdigits : ∀ k, separatedDigits? (Nat.toDigits 10 k) =
      some ((Nat.toDigits 10 k).map digitValue) := fun k =>
    separatedDigits?_of_isDigit (by simp) fun c hc => isDigit_of_mem_toDigits hc
  have hvalue : ∀ k, decimal ((Nat.toDigits 10 k).map digitValue) = k := fun k => by
    rw [decimal_map_digitValue, Nat.ofDigitChars_ten_toDigits]
  unfold integer?
  cases n with
  | ofNat k =>
    have hsign : splitSign (Nat.toDigits 10 k) = (false, Nat.toDigits 10 k) :=
      splitSign_of_isDigit fun c hc => isDigit_of_mem_toDigits hc
    rw [toList_toString_ofNat, trimEnd_of_forall (hblank k), hsign]
    simp only [hdigits, hvalue, List.length_map]
    rfl
  | negSucc k =>
    have hall : ∀ c ∈ '-' :: Nat.toDigits 10 (k + 1), isIntegerBlank c = false :=
      List.forall_mem_cons.mpr ⟨by decide, hblank (k + 1)⟩
    rw [toList_toString_negSucc, trimEnd_of_forall hall]
    simp only [splitSign, hdigits, hvalue, List.length_map]
    rfl

end Text

namespace Shell

/-! ## Arguments without a hyphen -/

/-- Whether an argument has no hyphen in front. -/
def IsPlain (arg : String) : Prop :=
  arg.toList.head? ≠ some '-'

instance (arg : String) : Decidable (IsPlain arg) :=
  inferInstanceAs (Decidable (_ ≠ _))

section Marks

variable {switches : List Switch} {arg : String} {args : List String} {mark : Mark}

theorem marks_cons (h : markOf switches arg.toList = .ok mark) (hne : arg ≠ "--") :
    marks switches (arg :: args) = (((arg, mark) :: ·) <$> marks switches args) := by
  rw [marks, if_neg hne, h]
  rfl

theorem markOf_of_isPlain (h : IsPlain arg) : markOf switches arg.toList = .ok .operand := by
  unfold markOf
  split
  next hs => exact absurd (congrArg List.head? hs) h
  next => rfl

theorem marks_cons_of_isPlain (h : IsPlain arg) :
    marks switches (arg :: args) = (((arg, .operand) :: ·) <$> marks switches args) := by
  apply marks_cons (markOf_of_isPlain h)
  rintro rfl
  exact h rfl

end Marks

theorem isNegativeNumber_of_isDigit {s : List Char} (hne : s ≠ []) (h : ∀ c ∈ s, c.isDigit) :
    isNegativeNumber ('-' :: s) = true := by
  have hlast : s.getLast? ≠ some '\n' := by
    intro hs
    exact absurd (h '\n' (List.mem_of_getLast? hs)) (by decide)
  have hall : ∀ c ∈ s, (decimalDigit? c).isSome := by
    intro c hc
    rw [decimalDigit?_of_isDigit (h c hc)]
    rfl
  rw [isNegativeNumber, if_neg hlast]
  simp only [Bool.or_eq_true, Bool.and_eq_true, Bool.not_eq_true', List.isEmpty_eq_false_iff,
    List.all_eq_true]
  exact .inl ⟨hne, hall⟩

theorem markOf_toString (n : Int) :
    markOf Emulate.switches (toString n).toList = .ok .operand := by
  cases n with
  | ofNat k =>
    apply markOf_of_isPlain
    rw [IsPlain, toList_toString_ofNat]
    intro h
    exact absurd (isDigit_of_mem_toDigits (List.mem_of_mem_head? h)) (by decide)
  | negSucc k =>
    rw [toList_toString_negSucc]
    have hdigits : ∀ c ∈ Nat.toDigits 10 (k + 1), c.isDigit := fun c => isDigit_of_mem_toDigits
    have hne : Nat.toDigits 10 (k + 1) ≠ [] := by simp
    generalize Nat.toDigits 10 (k + 1) = s at hdigits hne
    have hnumber := isNegativeNumber_of_isDigit hne hdigits
    obtain ⟨d, s, rfl⟩ := List.exists_cons_of_ne_nil hne
    obtain ⟨hd, hs⟩ := List.forall_mem_cons.mp hdigits
    have hd' : d ≠ 'h' ∧ d ≠ '-' ∧ d ≠ '=' := by
      refine ⟨?_, ?_, ?_⟩ <;> rintro rfl <;> exact absurd hd (by decide)
    -- no name has a digit in its second place
    have hnames : ∀ x ∈ namesOf Emulate.switches, ∀ t, x.1 ≠ '-' :: d :: t := by
      have hsecond : ∀ x ∈ namesOf Emulate.switches, x.1[1]? = some 'h' ∨ x.1[1]? = some '-' := by
        decide
      intro x hx t he
      have hx := hsecond x hx
      rw [he] at hx
      rcases hx with hx | hx
      · exact hd'.1 (Option.some.inj hx)
      · exact hd'.2.1 (Option.some.inj hx)
    have hfind : findSwitch? Emulate.switches ('-' :: d :: s) = none := by
      rw [findSwitch?, Keyed.find?, Option.map_eq_none_iff, List.find?_eq_none]
      intro x hx
      simpa using hnames x hx s
    have hequals : splitEquals ('-' :: d :: s) = ('-' :: d :: s, none) := by
      have hnone : ('-' :: d :: s).dropWhile (· ≠ '=') = [] := by
        rw [List.dropWhile_eq_nil_iff]
        intro c hc
        rcases List.mem_cons.mp hc with rfl | hc
        · rfl
        · have hc : c ≠ '=' := by
            rintro rfl
            exact absurd (hdigits '=' hc) (by decide)
          simpa using hc
      rw [splitEquals, hnone]
    have hcandidates : candidates Emulate.switches ('-' :: d :: s) = [] := by
      unfold candidates
      split
      next he =>
        cases he
        exact absurd rfl hd'.2.1
      next he =>
        cases he
        rw [List.filterMap_eq_nil_iff]
        intro x hx
        exact if_neg (hnames x hx [])
      next h => exact absurd rfl (h d s)
    simp [markOf, hfind, hequals, hcandidates, hnumber]

/-! ## Values in the current edition -/

section Values

variable {switches : List Switch} {rest : List (String × Mark)} {s : Switch} {events : List Event}
  {taken : Nat}

/-- Whether every switch that takes a value has got one. -/
def Valued (events : List Event) : Prop :=
  ∀ s, Event.value s none ∉ events

theorem Valued.of_cons {event : Event} (h : Valued (event :: events)) : Valued events :=
  fun s hs => h s (.tail _ hs)

theorem valued_of_detached (h : detached s rest = .ok (events, taken)) : Valued events := by
  unfold detached at h
  split at h
  · split at h
    · cases h
      simp [Valued]
    · cases h
  · cases h
    simp [Valued]

theorem valued_of_consFlag {others : Except String (List Event × Nat)}
    (h : s.consFlag others = .ok (events, taken))
    (hv : ∀ {events taken}, others = .ok (events, taken) → Valued events) : Valued events := by
  obtain ⟨⟨more, taken⟩, hmore, he⟩ := map_eq_ok_iff.mp h
  cases he
  simpa [Valued] using hv hmore

theorem valued_of_attached {short equals : Bool} {text : List Char}
    (h : attached .current switches rest s short equals text = .ok (events, taken)) :
    Valued events := by
  induction s, short, equals, text using attached.induct .current switches
    generalizing events taken with
  | case1 s short equals hs | case3 s short equals letter more hs =>
    rw [attached, if_pos hs] at h
    cases h
    simp [Valued, Edition.valueOf]
  | case2 s short equals hs =>
    rw [attached, if_neg hs] at h
    cases h
  | case4 s short equals letter more hs hrefused =>
    rw [attached, if_neg hs, if_pos hrefused] at h
    cases h
  | case5 s short equals letter hs hrefused next hnext =>
    rw [attached, if_neg hs, if_neg hrefused, hnext] at h
    exact valued_of_consFlag h valued_of_detached
  | case6 s short equals letter hs hrefused next hnext text _ ih =>
    rw [attached, if_neg hs, if_neg hrefused, hnext] at h
    exact valued_of_consFlag h ih
  | case7 s short equals letter hs hrefused next hnext c text hc ih =>
    rw [attached, if_neg hs, if_neg hrefused, hnext] at h
    dsimp only at h
    split at h
    next hnil => cases hnil
    next hequals =>
      cases hequals
      exact absurd rfl (hc rfl)
    next hcons _ =>
      cases hcons
      exact valued_of_consFlag h ih
  | case8 s short equals letter more hs hrefused hnone =>
    rw [attached, if_neg hs, if_neg hrefused, hnone] at h
    cases h
    simp [Valued]
  | case9 s short equals letter more hs hrefused hnone hformer => exact absurd rfl hformer

theorem valued_of_switchEvents {name : List Char} {attachment : Option Attachment}
    (h : switchEvents .current switches rest s name attachment = .ok (events, taken)) :
    Valued events := by
  cases attachment with
  | none => exact valued_of_detached h
  | some attachment => exact valued_of_attached h

theorem valued_eventsOf (slot : Slot) (marked : List (String × Mark)) :
    Valued (eventsOf .current switches slot marked) := by
  induction slot, marked using eventsOf.induct .current switches with
  | case1 slot => simp [eventsOf, Valued]
  | case2 arg rest ih | case4 arg rest ih | case6 slot arg rest ih =>
    rw [eventsOf]
    simpa [Valued] using ih
  | case3 slot arg rest hslot ih =>
    rw [eventsOf]
    · simpa [Valued] using ih
    · exact hslot
  | case5 slot arg rest hslot ih =>
    rw [eventsOf]
    · exact ih
    · exact hslot
  | case7 slot arg s name attachment rest events taken hs ih =>
    rw [eventsOf, hs]
    intro t ht
    rcases List.mem_append.mp ht with ht | ht
    · exact valued_of_switchEvents hs t ht
    · exact ih t ht
  | case8 slot arg s name attachment rest message hs =>
    rw [eventsOf, hs]
    simp [Valued]

end Values

/-- In the current edition every switch that takes a value gets one, if it is not refused. -/
theorem valued_events (switches : List Switch) (args : List String) :
    Valued (events .current switches args) := by
  unfold events
  split
  · exact valued_eventsOf _ _
  · simp [Valued]

/-! ## Options -/

namespace Assemble

variable {edition : Edition} {options : Options} {args : List String}
  {source output listing : String}

def Options.follow? (options : Options) : List Event → Option Options
  | [] => some options
  | .value s text :: rest => (options.assign s text).follow? rest
  | .operand text :: rest => follow? { options with input := text } rest
  | .flag _ :: _ | .extra _ :: _ | .refusal _ :: _ => none

/-- The options that arguments give, if they are accepted and the command is to start. -/
def options? (edition : Edition) (args : List String) : Option Options :=
  defaults.follow? (events edition switches args)

theorem run_of_options? {m : Type → Type} [Monad m] (host : Host m)
    (h : options? edition args = some options) : run host args edition = start host options := by
  have hfollow : ∀ (events : List Event) (before : Options),
      before.follow? events = some options → follow host before [] events = start host options := by
    intro events
    induction events with
    | nil =>
      rintro before ⟨⟩
      rfl
    | cons event events ih =>
      intro before h
      cases event with
      | value s text => exact ih _ h
      | operand text => exact ih _ h
      | flag s => cases h
      | extra text => cases h
      | refusal message => cases h
  exact hfollow _ _ h

/-- The arguments that name a source and an image, and a listing unless it has no name. -/
def arguments (source output listing : String) : List String :=
  source :: "-o" :: output :: if listing = "" then [] else ["-l", listing]

theorem events_arguments (hs : IsPlain source) (ho : IsPlain output) (hl : IsPlain listing) :
    events edition switches (arguments source output listing) =
      .operand source :: .value outputSwitch (some output) ::
        if listing = "" then [] else [.value listingSwitch (some listing)] := by
  have houtput : markOf switches "-o".toList = .ok (.switch outputSwitch "-o".toList none) := by rfl
  have hlisting : markOf switches "-l".toList = .ok (.switch listingSwitch "-l".toList none) := by
    rfl
  have hmarks : marks switches (arguments source output listing) =
      .ok ((source, .operand) :: ("-o", .switch outputSwitch "-o".toList none) ::
        (output, .operand) :: if listing = "" then []
          else [("-l", .switch listingSwitch "-l".toList none), (listing, .operand)]) := by
    rw [arguments, marks_cons_of_isPlain hs, marks_cons houtput (by decide),
      marks_cons_of_isPlain ho]
    split
    · rfl
    · rw [marks_cons hlisting (by decide), marks_cons_of_isPlain hl]
      rfl
  rw [events, hmarks]
  by_cases hnone : listing = ""
  · simp [hnone, eventsOf, switchEvents, detached, outputSwitch]
  · simp [hnone, eventsOf, eventsOf.slotAfter, switchEvents, detached, outputSwitch,
      listingSwitch]

theorem options?_arguments (hs : IsPlain source) (ho : IsPlain output) (hl : IsPlain listing) :
    options? edition (arguments source output listing) = some ⟨source, some output, listing⟩ := by
  rw [options?, events_arguments hs ho hl]
  by_cases hnone : listing = ""
  · rw [if_pos hnone, hnone]
    rfl
  · rw [if_neg hnone]
    rfl

end Assemble

namespace Emulate

variable {edition : Edition} {options : Options} {args : List String} {program : String}

def Options.follow? (options : Options) : List Event → Option Options
  | [] => some options
  | .flag s :: rest =>
    if s = bellSwitch then follow? { options with bellStyle := .spell } rest else none
  | .value _ none :: rest => follow? { options with limit := .missing } rest
  | .value _ (some text) :: rest =>
    (integer? text).bind fun n => follow? { options with limit := .steps n } rest
  | .operand text :: rest => follow? { options with program := text } rest
  | .extra _ :: _ | .refusal _ :: _ => none

/-- The options that arguments give, if they are accepted and the command is to start. -/
def options? (edition : Edition) (args : List String) : Option Options :=
  defaults.follow? (events edition switches args)

theorem run_of_options? {m : Type → Type} [Monad m] (host : Host m)
    (h : options? edition args = some options) : run host args edition = start host options := by
  have hfollow : ∀ (events : List Event) (before : Options),
      before.follow? events = some options → follow host before [] events = start host options := by
    intro events
    induction events with
    | nil =>
      rintro before ⟨⟩
      rfl
    | cons event events ih =>
      intro before h
      cases event with
      | value s text =>
        cases text with
        | none => exact ih _ h
        | some text =>
          obtain ⟨n, hn, h⟩ := Option.bind_eq_some_iff.mp h
          rw [follow, hn]
          exact ih _ h
      | operand text => exact ih _ h
      | flag s =>
        rw [Options.follow?] at h
        rw [follow]
        split at h
        next hs =>
          rw [if_pos hs]
          exact ih _ h
        next => cases h
      | extra text => cases h
      | refusal message => cases h
  exact hfollow _ _ h

theorem limit_ne_missing_of_valued {events : List Event} {before : Options} (hv : Valued events)
    (hl : before.limit ≠ .missing) (h : before.follow? events = some options) :
    options.limit ≠ .missing := by
  induction events generalizing before with
  | nil =>
    cases h
    exact hl
  | cons event events ih =>
    cases event with
    | value s text =>
      cases text with
      | none => exact absurd (.head _) (hv s)
      | some text =>
        obtain ⟨n, -, h⟩ := Option.bind_eq_some_iff.mp h
        exact ih hv.of_cons (by rintro ⟨⟩) h
    | operand text => exact @ih { before with program := text } hv.of_cons hl h
    | flag s =>
      rw [Options.follow?] at h
      split at h
      · exact @ih { before with bellStyle := .spell } hv.of_cons hl h
      · cases h
    | extra text => cases h
    | refusal message => cases h

/-- Only the former edition leaves out the value of a limit. -/
theorem edition_of_options? (h : options? edition args = some options)
    (hmissing : options.limit = .missing) : edition = .former := by
  cases edition with
  | former => rfl
  | current =>
    have hdefaults : defaults.limit ≠ .missing := by rintro ⟨⟩
    exact absurd hmissing (limit_ne_missing_of_valued (valued_events _ _) hdefaults h)

example : options? .former ["p", "--max-steps=--"] = some ⟨"p", .ring, .missing⟩ ∧
    options? .current ["p", "--max-steps=--"] = none := by
  decide +kernel

/-- The arguments that name a program, a limit, and the bell if it is to be spelled out. -/
def arguments (program : String) (style : BellStyle) (limit : Int) : List String :=
  program :: "--max-steps" :: toString limit :: if style = .spell then ["--fake-bell"] else []

theorem events_arguments (hp : IsPlain program) (style : BellStyle) (n : Int) :
    events edition switches (arguments program style n) =
      .operand program :: .value limitSwitch (some (toString n)) ::
        if style = .spell then [.flag bellSwitch] else [] := by
  have hlimit : markOf switches "--max-steps".toList =
      .ok (.switch limitSwitch "--max-steps".toList none) := by rfl
  have hbell : markOf switches "--fake-bell".toList =
      .ok (.switch bellSwitch "--fake-bell".toList none) := by rfl
  have hmark := markOf_toString n
  unfold arguments
  generalize toString n = text at hmark ⊢
  have hne : text ≠ "--" := by
    rintro rfl
    exact absurd hmark (by decide)
  have hmarks : marks switches (program :: "--max-steps" :: text ::
      if style = .spell then ["--fake-bell"] else []) =
      .ok ((program, .operand) :: ("--max-steps", .switch limitSwitch "--max-steps".toList none) ::
        (text, .operand) :: if style = .spell
          then [("--fake-bell", .switch bellSwitch "--fake-bell".toList none)] else []) := by
    rw [marks_cons_of_isPlain hp, marks_cons hlimit (by decide), marks_cons hmark hne]
    split
    · rw [marks_cons hbell (by decide)]
      rfl
    · rfl
  rw [events, hmarks]
  cases style with
  | ring => simp [eventsOf, switchEvents, detached, limitSwitch]
  | spell => simp [eventsOf, eventsOf.slotAfter, switchEvents, detached, limitSwitch, bellSwitch]

theorem options?_arguments (hp : IsPlain program) (style : BellStyle) {n : Int}
    (hn : (Nat.toDigits 10 n.natAbs).length ≤ maxDigits) :
    options? edition (arguments program style n) = some ⟨program, style, .steps n⟩ := by
  have hread : integer? (toString n) = some n := by rw [integer?_toString, if_pos hn]
  rw [options?, events_arguments hp]
  simp only [Options.follow?, hread, Option.bind_some]
  cases style <;> rfl

theorem run_arguments_of_lt {m : Type → Type} [Monad m] (host : Host m) (hp : IsPlain program)
    (style : BellStyle) {n : Int} (hn : maxDigits < (Nat.toDigits 10 n.natAbs).length) :
    run host (arguments program style n) edition = host.failUsage usage command
      (limitSwitch.refusal ("invalid int value: " ++ quoted (toString n))) := by
  have hread : integer? (toString n) = none := by
    rw [integer?_toString, if_neg (Nat.not_le.mpr hn)]
  rw [run, events_arguments hp]
  simp only [follow, hread]

end Emulate

end Shell

end Nibble
