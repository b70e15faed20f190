import Nibble.Keyed
import Nibble.Shell.Host

/-! # Folders

A model of a working folder: its files and the folders in it, each under the list of names that
leads to it. A list that leads out of the folder starts with two dots, or with a slash if it starts
at the root. Outside there is at first nothing but the folders that every system has at its root,
and the null device, which is empty whatever is written to it.
-/

namespace Nibble.Shell

structure Folder where
  files : List (List String × List UInt8)
  folders : List (List String)
  deriving DecidableEq, Repr

inductive Location
  | folder
  | file (path : List String) (bytes : List UInt8)
  | vacant (path : List String)
  /-- The path ends with a slash, but leads to no folder; reading is refused in this way. -/
  | noFolder (refusal : Refusal)
  deriving DecidableEq, Repr

namespace Folder

def empty : Folder := ⟨[], []⟩

/-- The names in a path; between two slashes there may be none. -/
def namesIn (path : String) : List String :=
  (path.toList.splitOn '/').map String.ofList

def maxName : Nat := 255

def maxPath : Nat := 4095

def rootFolders : List String :=
  ["bin", "boot", "dev", "etc", "home", "lib", "media", "mnt", "opt", "proc", "root", "run",
    "sbin", "srv", "sys", "tmp", "usr", "var"]

def nullDevice : List String := ["/", "dev", "null"]

/-- Whether a list of names leads out of the working folder. -/
def isOutside (path : List String) : Bool :=
  path.head? = some ".." || path.head? = some "/"

def isFolder (f : Folder) (path : List String) : Bool :=
  path ∈ f.folders || rootFolders.any fun name => path = ["/", name]

def file? (f : Folder) (path : List String) : Option (List UInt8) :=
  if path = nullDevice then some [] else Keyed.find? f.files path

/-- Where two dots lead: out of the working folder as well, but not above the root. -/
def parent (here : List String) : List String :=
  match here.getLast? with
  | some "/" => here
  | none | some ".." => here ++ [".."]
  | some _ => here.dropLast

def walk (f : Folder) : List String → List String → Except Refusal Location
  | _, [] => .ok .folder
  | here, name :: rest =>
    if name = "" || name = "." then f.walk here rest
    else if name = ".." then f.walk (parent here) rest
    else
      let path := here ++ [name]
      let stop (refusal : Refusal) : Except Refusal Location :=
        if !rest.isEmpty && rest.all (· = "") then .ok (.noFolder refusal) else .error refusal
      if maxName < name.utf8ByteSize then stop .nameTooLong
      else if f.isFolder path then f.walk path rest
      else match f.file? path with
        | some bytes => if rest.isEmpty then .ok (.file path bytes) else stop .notADirectory
        | none => if rest.isEmpty then .ok (.vacant path) else stop .noSuchFile

def locate (f : Folder) (name : String) : Except Refusal Location :=
  if name.toList.contains '\x00' then .error .invalidName
  else if name = "" then .error .noSuchFile
  else if maxPath < name.utf8ByteSize then .error .nameTooLong
  else match namesIn name with
    | "" :: names => f.walk ["/"] names
    | names => f.walk [] names

def read (f : Folder) (name : String) : Except Refusal (List UInt8) := do
  match ← f.locate name with
  | .folder => .error .isADirectory
  | .file _ bytes => .ok bytes
  | .vacant _ => .error .noSuchFile
  | .noFolder refusal => .error refusal

def write (f : Folder) (name : String) (bytes : List UInt8) : Except Refusal Folder := do
  match ← f.locate name with
  | .folder => .error .isADirectory
  | .file path _ | .vacant path => .ok { f with files := Keyed.insert path bytes f.files }
  | .noFolder _ => .error .isADirectory

def addFolder (f : Folder) (path : List String) : Folder :=
  { f with folders := f.folders ++ ((List.range path.length).map fun n => path.take (n + 1)) }

def addFile (f : Folder) (path : List String) (bytes : List UInt8) : Folder :=
  let f := f.addFolder path.dropLast
  { f with files := Keyed.insert path bytes f.files }

/-- The folder with an entry under a name; one that ends with a slash is a folder. -/
def addEntry (f : Folder) (name : String) (bytes : List UInt8) : Folder :=
  let path := (namesIn name).filter fun part => part ≠ "" && part ≠ "."
  if name.endsWith "/" then f.addFolder path else f.addFile path bytes

/--
The files in the working folder that it did not have before with the same bytes, by name.
-/
def changes (old new : Folder) : List (String × List UInt8) :=
  let changed := new.files.filter fun (path, bytes) =>
    !isOutside path && old.file? path ≠ some bytes
  (changed.map fun (path, bytes) => (String.intercalate "/" path, bytes)).mergeSort
    fun a b => a.1 ≤ b.1

end Folder

end Nibble.Shell
