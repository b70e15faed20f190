import Nibble.Assembler
import Nibble.Shell.Host
import Nibble.Shell.Option
import Nibble.Text.Utf8

/-! # The assembler's command

Reads a source, assembles it, and writes the image and, if it is asked for, the listing. Every
output is written after the assembly has succeeded.
-/

namespace Nibble.Shell.Assemble

open Text

/--
The names of the files. An empty name stands for no listing. The former edition of the rules for
arguments may leave the image without a name.
-/
structure Options where
  input : String
  output : Option String
  listing : String
  deriving DecidableEq, Repr

def command : String := "fourasm"

def usage : String := "usage: fourasm [-h] [-o OUTPUT] [-l LISTING] [input]"

def defaultOutput : String := "out.4"

def defaults : Options := ⟨"-", some defaultOutput, ""⟩

def helpSwitch : Switch := ⟨["-h", "--help"], false⟩

def outputSwitch : Switch := ⟨["-o", "--output"], true⟩

def listingSwitch : Switch := ⟨["-l", "--listing"], true⟩

def switches : List Switch := [helpSwitch, outputSwitch, listingSwitch]

def Options.assign (options : Options) (s : Switch) (text : Option String) : Options :=
  if s = outputSwitch then { options with output := text }
  else { options with listing := text.getD "" }

variable {m : Type → Type} [Monad m]

/-- A carriage return ends a line of a file, but not of the standard input. -/
def sourceText (argument : String) (chars : List Char) : String :=
  String.ofList (if argument = "-" then chars else unifyLineEnds chars)

def writeListing (host : Host m) (options : Options) (a : Assembler) (source : String) :
    m (Except Refusal Unit) := do
  if options.listing = "" then return .ok ()
  match ← host.write options.listing (a.listing source) with
  | .error refusal => return .error refusal
  | .ok () =>
    host.print ("Wrote listing to " ++ options.listing ++ "\n")
    return .ok ()

def writeAll (host : Host m) (options : Options) (a : Assembler) (source : String) : m Exit := do
  match options.output with
  | none => return .defect .valueMissing
  | some output =>
    match ← host.write output a.image.text with
    | .error refusal => host.failFor output refusal
    | .ok () =>
      host.print ("Wrote " ++ toString a.image.memory.length ++ " cells to " ++ output ++ "\n")
      match ← writeListing host options a source with
      | .error refusal => host.failFor options.listing refusal
      | .ok () =>
        if a.warnings.isEmpty then return .status 0
        host.complain (toString a.warnings.size ++ " warning(s).\n")
        return .status 0

def assemble (host : Host m) (options : Options) (text : String) : m Exit := do
  let source := sourceName options.input
  let (a, result) := (Assembler.new source).assemble text
  a.warnings.toList.forM fun w => host.complain (w.text ++ "\n")
  match result with
  | .error failure => host.failWith failure
  | .ok () => writeAll host options a source

def start (host : Host m) (options : Options) : m Exit := do
  match ← host.readSource options.input with
  | .error refusal => host.failFor options.input refusal
  | .ok bytes =>
    match Utf8.decode bytes with
    | .error fault => host.fail ("Error: " ++ fault.message)
    | .ok chars => assemble host options (sourceText options.input chars)

/-- Lets the events take effect one after the other; extra arguments are refused at the end. -/
def follow (host : Host m) (options : Options) (extras : List String) : List Event → m Exit
  | [] =>
    if extras.isEmpty then start host options
    else host.failUsage usage command
      ("unrecognized arguments: " ++ String.intercalate " " extras)
  | .flag _ :: _ => do
    host.print (usage ++ "\n")
    return .status 0
  | .value s text :: rest => follow host (options.assign s text) extras rest
  | .operand text :: rest => follow host { options with input := text } extras rest
  | .extra text :: rest => follow host options (extras ++ [text]) rest
  | .refusal message :: _ => host.failUsage usage command message

/-- The command, with its arguments read by the rules of an edition. -/
def run (host : Host m) (args : List String) (edition : Edition := .former) : m Exit :=
  follow host defaults [] (events edition switches args)

end Nibble.Shell.Assemble
