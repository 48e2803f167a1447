import SymbolSearch.Files.Tree
import SymbolSearch.Settings.Toml
import SymbolSearch.Toml.Reader

/-!
# Settings of a directory

Settings are kept in a file of their own directory below the working directory. Without that file
the standard settings hold.

## Main definitions

* `Settings.Fault` — why settings cannot be loaded or saved
* `Settings.load` — the settings of a directory
* `Settings.attemptSave` — what becomes of the files when settings are saved
* `Settings.save` — saving settings
-/

namespace SymbolSearch.Settings

open Files

/-- The directory of the settings below a working directory. -/
def directoryOf (root : String) : String := Path.join root ".scip-finder"

/-- The file of the settings below a working directory. -/
def fileOf (root : String) : String := Path.join (directoryOf root) "config.toml"

/-- Why settings cannot be loaded or saved. -/
inductive Fault where
  /-- The file cannot be read as text. -/
  | unreadable (path : String)
  /-- The file does not state settings. -/
  | malformed (path : String)
  /-- The directory cannot be made. -/
  | noDirectory (path : String)
  /-- The settings cannot be written as a document. -/
  | unwritable
  /-- The file cannot be written. -/
  | notWritten (path : String)
  deriving DecidableEq, Repr

/-- A path between quotes. -/
def quoted (path : String) : String :=
  let escaped := path.toList.flatMap fun c => if c = '\x22' ∨ c = '\\' then ['\\', c] else [c]
  "\"" ++ String.ofList escaped ++ "\""

/-- The words for a fault. -/
def Fault.message : Fault → String
  | .unreadable path => "Failed to read config from " ++ quoted path
  | .malformed path => "Failed to parse config from " ++ quoted path
  | .noDirectory path => "Failed to create config directory " ++ quoted path
  | .unwritable => "Failed to serialize config"
  | .notWritten path => "Failed to write config to " ++ quoted path

/-- The settings that a document states. -/
def parse? (s : List Char) : Option Settings := do ofSource? (← Toml.parse? s)

/-- The text of the file at a path, if it is encoded as UTF-8. -/
def readText? (t : Tree) (cwd : Location) (path : String) : Option (List Char) :=
  match t.read cwd path with
  | .ok bytes => (String.fromUTF8? bytes.toByteArray).map String.toList
  | .error _ => none

/-- The settings of a directory. -/
def load (t : Tree) (cwd : Location) (root : String) : Except Fault Settings :=
  let path := fileOf root
  if t.contains cwd path then
    match readText? t cwd path with
    | none => .error (.unreadable path)
    | some s =>
      match parse? s with
      | none => .error (.malformed path)
      | some settings => .ok settings
  else .ok standard

/-- Attempts to save the settings of a directory, which is made first if need be. -/
def attemptSave (t : Tree) (cwd : Location) (root : String) (s : Settings) : Attempt Fault :=
  match t.makeDirectories cwd (directoryOf root) with
  | ⟨t, some _⟩ => ⟨t, some (.noDirectory (directoryOf root))⟩
  | ⟨t, none⟩ =>
    match s.blocks? with
    | none => ⟨t, some .unwritable⟩
    | some blocks =>
      match t.write cwd (fileOf root) (String.ofList (Toml.render blocks)).toUTF8.data.toList with
      | .error _ => ⟨t, some (.notWritten (fileOf root))⟩
      | .ok t => ⟨t, none⟩

/-- Saves the settings of a directory. -/
def save (t : Tree) (cwd : Location) (root : String) (s : Settings) : Except Fault Tree :=
  (attemptSave t cwd root s).toExcept

end SymbolSearch.Settings
