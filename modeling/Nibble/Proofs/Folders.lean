import Nibble.Proofs.Outcome
import Nibble.Shell.Folder

/-! # Names and files

To which file a name leads depends on the folders alone. What is written under a name is kept at
the path of its file, and is read under every name that leads there.
-/

namespace Nibble.Shell

def Location.IsFile : Location → Prop
  | .file _ _ | .vacant _ => True
  | .folder | .noFolder _ => False

namespace Folder

def route (f : Folder) : List String → List String → Option (List String)
  | _, [] => none
  | here, name :: rest =>
    if name = "" || name = "." then f.route here rest
    else if name = ".." then f.route (parent here) rest
    else if maxName < name.utf8ByteSize then none
    else if f.isFolder (here ++ [name]) then f.route (here ++ [name]) rest
    else if rest.isEmpty then some (here ++ [name]) else none

/-- The path of the file to which a name leads, whether or not it is there. -/
def path? (f : Folder) (name : String) : Option (List String) :=
  if name.toList.contains '\x00' then none
  else if name = "" then none
  else if maxPath < name.utf8ByteSize then none
  else if (namesIn name).head? = some "" then f.route ["/"] (namesIn name).tail
  else f.route [] (namesIn name)

/-- Whether two names lead to one file. -/
def SameFile (f : Folder) (name other : String) : Prop :=
  ∃ path, f.path? name = some path ∧ f.path? other = some path

def entry (f : Folder) (path : List String) : Location :=
  match f.file? path with
  | some bytes => .file path bytes
  | none => .vacant path

def put (f : Folder) (path : List String) (bytes : List UInt8) : Folder :=
  { f with files := Keyed.insert path bytes f.files }

variable {f f' : Folder} {name other : String} {path path' : List String} {bytes : List UInt8}

theorem walk_of_route (here names : List String) :
    (∀ path, f.route here names = some path → f.walk here names = .ok (f.entry path)) ∧
      (f.route here names = none → ∀ location, f.walk here names = .ok location →
        ¬ location.IsFile) := by
  induction names generalizing here with
  | nil =>
    refine ⟨nofun, ?_⟩
    rintro - location ⟨⟩
    exact id
  | cons name rest ih =>
    have hstop : ∀ refusal location, (if !rest.isEmpty && rest.all (· = "") then
        Except.ok (Location.noFolder refusal) else .error refusal) = .ok location →
          ¬ location.IsFile := by
      intro refusal location h
      split at h <;> cases h
      exact id
    rw [walk, route]
    dsimp only
    split
    · exact ih here
    · split
      · exact ih (parent here)
      · split
        · exact ⟨nofun, fun _ => hstop _⟩
        · split
          · exact ih (here ++ [name])
          · split
            · refine ⟨?_, nofun⟩
              rintro path ⟨⟩
              rw [entry]
              cases f.file? (here ++ [name]) <;> rfl
            · refine ⟨nofun, fun _ => ?_⟩
              cases f.file? (here ++ [name]) with
              | some bytes => exact hstop .notADirectory
              | none => exact hstop .noSuchFile

theorem route_put (here names path : List String) (bytes : List UInt8) :
    (f.put path bytes).route here names = f.route here names := by
  induction names generalizing here with
  | nil => rfl
  | cons name rest ih =>
    simp only [route, ih]
    rfl

theorem path?_put (name : String) (path : List String) (bytes : List UInt8) :
    (f.put path bytes).path? name = f.path? name := by
  unfold path?
  simp only [route_put]

theorem locate_of_path? (name : String) :
    (∀ path, f.path? name = some path → f.locate name = .ok (f.entry path)) ∧
      (f.path? name = none → ∀ location, f.locate name = .ok location → ¬ location.IsFile) := by
  rw [path?, locate]
  split
  · exact ⟨nofun, nofun⟩
  · split
    · exact ⟨nofun, nofun⟩
    · split
      · exact ⟨nofun, nofun⟩
      · split
        next hroot =>
          obtain ⟨names, hn⟩ := List.head?_eq_some_iff.mp hroot
          rw [hn]
          exact walk_of_route _ names
        next hroot =>
          split
          next names hn => exact absurd (List.head?_eq_some_iff.mpr ⟨names, hn⟩) hroot
          next => exact walk_of_route _ _

theorem write_of_path? (h : f.path? name = some path) (bytes : List UInt8) :
    f.write name bytes = .ok (f.put path bytes) := by
  rw [write, (locate_of_path? name).1 path h, entry]
  cases f.file? path <;> rfl

theorem read_of_path? (h : f.path? name = some path) :
    f.read name = (f.file? path).elim (.error .noSuchFile) .ok := by
  rw [read, (locate_of_path? name).1 path h, entry]
  cases f.file? path <;> rfl

/-- Where a name leads to no file, every text is refused, and for the same reason. -/
theorem exists_refusal_of_path? (h : f.path? name = none) :
    ∃ refusal, ∀ bytes, f.write name bytes = .error refusal := by
  have hnone := (locate_of_path? name).2 h
  unfold write
  cases hl : f.locate name with
  | error refusal => exact ⟨refusal, fun _ => rfl⟩
  | ok location =>
    cases location with
    | folder => exact ⟨.isADirectory, fun _ => rfl⟩
    | noFolder refusal => exact ⟨.isADirectory, fun _ => rfl⟩
    | file path bytes => exact absurd trivial (hnone _ hl)
    | vacant path => exact absurd trivial (hnone _ hl)

theorem exists_path_of_read (h : f.read name = .ok bytes) :
    ∃ path, f.path? name = some path ∧ f.file? path = some bytes := by
  cases hp : f.path? name with
  | none =>
    have hnone := (locate_of_path? name).2 hp
    unfold read at h
    cases hl : f.locate name with
    | error refusal =>
      rw [hl] at h
      cases h
    | ok location =>
      rw [hl] at h
      cases location with
      | folder => cases h
      | noFolder refusal => cases h
      | file path bytes => exact absurd trivial (hnone _ hl)
      | vacant path => cases h
  | some path =>
    rw [read_of_path? hp] at h
    cases hb : f.file? path with
    | none =>
      rw [hb] at h
      cases h
    | some content =>
      rw [hb] at h
      cases h
      exact ⟨path, rfl, hb⟩

theorem exists_path_of_write (h : f.write name bytes = .ok f') :
    ∃ path, f.path? name = some path ∧ f' = f.put path bytes := by
  cases hp : f.path? name with
  | none =>
    obtain ⟨refusal, hr⟩ := exists_refusal_of_path? hp
    rw [hr] at h
    cases h
  | some path =>
    rw [write_of_path? hp] at h
    cases h
    exact ⟨path, rfl, rfl⟩

theorem file?_put (hne : path ≠ nullDevice) : (f.put path bytes).file? path = some bytes := by
  rw [file?, if_neg hne, put, Keyed.find?_insert, if_pos rfl]

theorem file?_put_of_ne (hne : path' ≠ path) : (f.put path' bytes).file? path = f.file? path := by
  rw [file?, file?, put, Keyed.find?_insert, if_neg hne]

/-- What is written under a name is read under it, unless it leads to the null device. -/
theorem read_of_write (h : f.write name bytes = .ok f') (hne : f.path? name ≠ some nullDevice) :
    f'.read name = .ok bytes := by
  obtain ⟨path, hp, rfl⟩ := exists_path_of_write h
  have hpath : path ≠ nullDevice := by
    rintro rfl
    exact hne hp
  have hp' : (f.put path bytes).path? name = some path := by rw [path?_put, hp]
  rw [read_of_path? hp', file?_put hpath]
  rfl

/-- What is written under a name leaves the other files as they are. -/
theorem read_of_write_of_not_sameFile (h : f.write other bytes = .ok f')
    (hne : ¬ f.SameFile name other) {content : List UInt8} (hr : f.read name = .ok content) :
    f'.read name = .ok content := by
  obtain ⟨path', hp', rfl⟩ := exists_path_of_write h
  obtain ⟨path, hp, hb⟩ := exists_path_of_read hr
  have hpath : path' ≠ path := by
    rintro rfl
    exact hne ⟨path', hp, hp'⟩
  have hput : (f.put path' bytes).path? name = some path := by rw [path?_put, hp]
  rw [read_of_path? hput, file?_put_of_ne hpath, hb]
  rfl

end Folder

end Nibble.Shell
