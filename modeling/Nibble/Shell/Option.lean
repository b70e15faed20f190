import Nibble.Keyed
import Nibble.Text.Integer
import Nibble.Text.Quoted

/-! # Options

The arguments of a command are switches, which start with a hyphen, and operands. A switch may
stand anywhere, a long name may be cut short as long as it stays unambiguous, and a value follows
its switch or is attached to it. A double hyphen ends the switches. Reading yields the events in
the order in which they take effect, up to a refusal.

The rules exist in two editions, which differ in what may be attached to a switch.
-/

namespace Nibble.Shell

open Text

/--
The editions of the rules. The former one takes an attached double hyphen for no value, allows
short names after a flag and an equals sign, and refuses other letters after a flag. The current
one takes every attached text for a value, refuses the equals sign, and puts the other letters
aside as an extra argument.
-/
inductive Edition
  | former
  | current
  deriving DecidableEq, Repr

/-- A switch, under all its names. -/
structure Switch where
  names : List String
  takesValue : Bool
  deriving DecidableEq, Repr

/-- A text that is attached to a switch, and whether an equals sign stands between them. -/
structure Attachment where
  text : List Char
  equals : Bool
  deriving DecidableEq, Repr

/-- What an argument is taken for; the text that is attached to a switch may be empty. -/
inductive Mark
  | operand
  | terminator
  | switch (s : Switch) (name : List Char) (attachment : Option Attachment)
  | unknown
  deriving DecidableEq, Repr

/-- What an argument does. A switch with a value may be left without any. -/
inductive Event
  | flag (s : Switch)
  | value (s : Switch) (text : Option String)
  | operand (text : String)
  | extra (text : String)
  | refusal (message : String)
  deriving DecidableEq, Repr

def Switch.refusal (s : Switch) (message : String) : String :=
  "argument " ++ String.intercalate "/" s.names ++ ": " ++ message

def Switch.ignores (s : Switch) (text : List Char) : String :=
  s.refusal ("ignored explicit argument " ++ quoted (String.ofList text))

def isShort : List Char → Bool
  | '-' :: '-' :: _ => false
  | _ => true

def namesOf (switches : List Switch) : List (List Char × Switch) :=
  switches.flatMap fun s => s.names.map fun name => (name.toList, s)

def findSwitch? (switches : List Switch) (name : List Char) : Option Switch :=
  Keyed.find? (namesOf switches) name

/-- Whether an argument with a hyphen is a negative number; a line feed may end it. -/
def isNegativeNumber : List Char → Bool
  | '-' :: rest =>
    let body := if rest.getLast? = some '\n' then rest.dropLast else rest
    let isDigit (c : Char) := (decimalDigit? c).isSome
    let digits (s : List Char) := !s.isEmpty && s.all isDigit
    digits body || match body.dropWhile isDigit with
      | '.' :: fraction => digits fraction
      | _ => false
  | _ => false

def splitEquals (arg : List Char) : List Char × Option Attachment :=
  match arg.dropWhile (· ≠ '=') with
  | _ :: text => (arg.takeWhile (· ≠ '='), some ⟨text, true⟩)
  | [] => (arg, none)

/-- The names that an argument may be short for, with what it attaches. -/
def candidates (switches : List Switch) : List Char → List (List Char × Switch × Option Attachment)
  | '-' :: '-' :: rest =>
    let (start, attachment) := splitEquals ('-' :: '-' :: rest)
    (namesOf switches).filterMap fun (name, s) =>
      if start.isPrefixOf name then some (name, s, attachment) else none
  | '-' :: letter :: rest =>
    (namesOf switches).filterMap fun (name, s) =>
      if name = ['-', letter] then some (name, s, some ⟨rest, false⟩) else none
  | _ => []

/-- What an argument that may be a switch is taken for, or the refusal of an ambiguous one. -/
def markOf (switches : List Switch) (arg : List Char) : Except String Mark :=
  match arg with
  | '-' :: _ :: _ =>
    match findSwitch? switches arg with
    | some s => .ok (.switch s arg none)
    | none =>
      let (name, attachment) := splitEquals arg
      match attachment, findSwitch? switches name with
      | some _, some s => .ok (.switch s name attachment)
      | _, _ =>
        match candidates switches arg with
        | [(name, s, attachment)] => .ok (.switch s name attachment)
        | [] => .ok (if isNegativeNumber arg || arg.contains ' ' then .operand else .unknown)
        | several =>
          .error ("ambiguous option: " ++ String.ofList arg ++ " could match " ++
            String.intercalate ", " (several.map fun (name, _) => String.ofList name))
  | _ => .ok .operand

/-- Marks every argument; all that follow a double hyphen are operands. -/
def marks (switches : List Switch) : List String → Except String (List (String × Mark))
  | [] => .ok []
  | arg :: rest =>
    if arg = "--" then .ok ((arg, .terminator) :: rest.map ((·, .operand)))
    else do
      let mark ← markOf switches arg.toList
      return (arg, mark) :: (← marks switches rest)

def detached (s : Switch) (rest : List (String × Mark)) : Except String (List Event × Nat) :=
  if s.takesValue then
    match rest with
    | (text, .operand) :: _ => .ok ([.value s (some text)], 1)
    | _ => .error (s.refusal "expected one argument")
  else .ok ([.flag s], 0)

def Switch.consFlag (s : Switch) (events : Except String (List Event × Nat)) :
    Except String (List Event × Nat) :=
  Prod.map (.flag s :: ·) id <$> events

def Edition.valueOf (edition : Edition) (text : List Char) : Option String :=
  if edition = .former ∧ text = ['-', '-'] then none else some (String.ofList text)

/--
The events of a switch with an attached text. It is the value if the switch takes one; further
short names may be attached to a short name that takes none.
-/
def attached (edition : Edition) (switches : List Switch) (rest : List (String × Mark)) (s : Switch)
    (short equals : Bool) : List Char → Except String (List Event × Nat)
  | [] => if s.takesValue then .ok ([.value s (some "")], 0) else .error (s.ignores [])
  | letter :: more =>
    if s.takesValue then .ok ([.value s (edition.valueOf (letter :: more))], 0)
    else if !short || edition = .current && (equals || letter = '-') then
      .error (s.ignores (letter :: more))
    else
      match findSwitch? switches ['-', letter] with
      | some next =>
        -- in the current edition, an equals sign may stand before the value of the last name
        match edition, more with
        | _, [] => s.consFlag (detached next rest)
        | .current, '=' :: text =>
          s.consFlag (attached edition switches rest next true true text)
        | _, c :: text => s.consFlag (attached edition switches rest next true false (c :: text))
      | none =>
        if edition = .current then
          .ok ([.extra (String.ofList ('-' :: letter :: more)), .flag s], 0)
        else .error (s.ignores (letter :: more))

/-- The events of a switch, and how many of the next arguments it takes. -/
def switchEvents (edition : Edition) (switches : List Switch) (rest : List (String × Mark))
    (s : Switch) (name : List Char) : Option Attachment → Except String (List Event × Nat)
  | none => detached s rest
  | some ⟨text, equals⟩ => attached edition switches rest s (isShort name) equals text

/-- Whether the operand of the command has been met: not yet, just now, or before. -/
inductive Slot
  | free
  | fresh
  | taken
  deriving DecidableEq, Repr

/--
The events of marked arguments for a command with one operand. A double hyphen is dropped next to
the operand, and counts as an extra argument elsewhere.
-/
def eventsOf (edition : Edition) (switches : List Switch) :
    Slot → List (String × Mark) → List Event
  | _, [] => []
  | .free, (arg, .operand) :: rest => .operand arg :: eventsOf edition switches .fresh rest
  | slot, (arg, .operand) :: rest => .extra arg :: eventsOf edition switches (slotAfter slot) rest
  | .taken, (arg, .terminator) :: rest => .extra arg :: eventsOf edition switches .taken rest
  | slot, (_, .terminator) :: rest => eventsOf edition switches (slotAfter slot) rest
  | slot, (arg, .unknown) :: rest => .extra arg :: eventsOf edition switches (slotAfter slot) rest
  | slot, (_, .switch s name attachment) :: rest =>
    match switchEvents edition switches rest s name attachment with
    | .ok (events, taken) => events ++ eventsOf edition switches (slotAfter slot) (rest.drop taken)
    | .error message => [.refusal message]
termination_by _ args => args.length
where
  slotAfter : Slot → Slot
    | .free => .free
    | _ => .taken

def events (edition : Edition) (switches : List Switch) (args : List String) : List Event :=
  match marks switches args with
  | .ok marked => eventsOf edition switches .free marked
  | .error message => [.refusal message]

end Nibble.Shell
