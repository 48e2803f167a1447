import SymbolSearch.Convention
import SymbolSearch.Data.Source
import SymbolSearch.Json.Value
import SymbolSearch.Report

/-!
# Settings

The settings of the program in three sections, each of whose fields has a value of its own when it
is not given.

## Main definitions

* `Settings` — all settings
* `Settings.standard` — the settings when nothing is configured
* `Settings.ofSource?` — reading settings from a data format
* `Settings.toJson` — settings as JSON
-/

namespace SymbolSearch

open Source

namespace Format

/-- Reads a form by its exact name. -/
def ofSource? {α : Type} [Source α] (v : α) : Option Format := choice? ofName? v

end Format

namespace Extension

/-- Reads an extension, both of whose endings have to be given. -/
def ofSource? {α : Type} [Source α] (v : α) : Option Extension := do
  match ← slots? ["declaration", "implementation"] v with
  | [declaration, implementation] =>
    return ⟨← required text? declaration, ← required text? implementation⟩
  | _ => none

/-- An extension as JSON. -/
def toJson (e : Extension) : Json :=
  Json.record
    [("declaration", Json.text e.declaration), ("implementation", Json.text e.implementation)]

end Extension

/-- How the index file is found and its documents are read. -/
structure IndexSettings where
  /-- The name of the index file. -/
  fileName : String
  /-- The number of directories that are searched, from the working directory upward. -/
  maxParentSearch : UInt64
  /-- The endings of declaration files. -/
  extensions : List Extension
  deriving DecidableEq, Repr

/-- How results are shown. -/
structure OutputSettings where
  /-- The form of a report when none is asked for. -/
  format : Format
  deriving DecidableEq, Repr

/-- What is written to log files. -/
structure LoggingSettings where
  /-- Whether log files are written. -/
  enabled : Bool
  /-- Whether log events are also shown as errors. -/
  stderr : Bool
  /-- The least level that is written. -/
  level : String
  /-- The directory of the log files, a path and therefore a Unicode text. -/
  directory : String
  /-- When a new log file is begun. -/
  rotation : String
  /-- The start of the names of log files. -/
  filePrefix : String
  deriving DecidableEq, Repr

/-- All settings. -/
structure Settings where
  /-- How the index file is found and read. -/
  index : IndexSettings
  /-- How results are shown. -/
  output : OutputSettings
  /-- What is logged. -/
  logging : LoggingSettings
  deriving DecidableEq, Repr

/-! ### Values when nothing is configured -/

/-- The settings of the index file when none are given. -/
def IndexSettings.standard : IndexSettings := ⟨"index.scip", 10, Convention.standard.extensions⟩

/-- The settings of reports when none are given. -/
def OutputSettings.standard : OutputSettings := ⟨.text⟩

/-- The settings of logging when none are given. -/
def LoggingSettings.standard : LoggingSettings :=
  ⟨false, true, "debug", ".scip-finder/logs", "daily", "scip-finder.log"⟩

/-- The settings when nothing is configured. -/
def Settings.standard : Settings :=
  ⟨IndexSettings.standard, OutputSettings.standard, LoggingSettings.standard⟩

/-! ### Reading -/

namespace IndexSettings

/-- The names of the fields, in order. -/
def fieldNames : List String := ["file_name", "max_parent_search", "declaration_extensions"]

/-- Reads the settings of the index file. -/
def ofSource? {α : Type} [Source α] (v : α) : Option IndexSettings := do
  match ← slots? fieldNames v with
  | [fileName, maxParentSearch, extensions] =>
    return { fileName := ← orDefault standard.fileName text? fileName
             maxParentSearch := ← orDefault standard.maxParentSearch uint64? maxParentSearch
             extensions := ← orDefault standard.extensions (list? Extension.ofSource?) extensions }
  | _ => none

/-- The convention for declaration files. -/
def convention (s : IndexSettings) : Convention := ⟨s.extensions⟩

end IndexSettings

namespace OutputSettings

/-- The names of the fields, in order. -/
def fieldNames : List String := ["format"]

/-- Reads the settings of reports. -/
def ofSource? {α : Type} [Source α] (v : α) : Option OutputSettings := do
  match ← slots? fieldNames v with
  | [format] => return ⟨← orDefault standard.format Format.ofSource? format⟩
  | _ => none

end OutputSettings

namespace LoggingSettings

/-- The names of the fields, in order. -/
def fieldNames : List String :=
  ["enabled", "stderr", "level", "directory", "rotation", "file_prefix"]

/-- Reads the settings of logging. -/
def ofSource? {α : Type} [Source α] (v : α) : Option LoggingSettings := do
  match ← slots? fieldNames v with
  | [enabled, stderr, level, directory, rotation, name] =>
    return { enabled := ← orDefault standard.enabled bool? enabled
             stderr := ← orDefault standard.stderr bool? stderr
             level := ← orDefault standard.level text? level
             directory := ← orDefault standard.directory text? directory
             rotation := ← orDefault standard.rotation text? rotation
             filePrefix := ← orDefault standard.filePrefix text? name }
  | _ => none

end LoggingSettings

namespace Settings

/-- The names of the sections, in order. -/
def sectionNames : List String := ["index", "output", "logging"]

/-- Reads settings. -/
def ofSource? {α : Type} [Source α] (v : α) : Option Settings := do
  match ← slots? sectionNames v with
  | [index, output, logging] =>
    return { index := ← orDefault standard.index IndexSettings.ofSource? index
             output := ← orDefault standard.output OutputSettings.ofSource? output
             logging := ← orDefault standard.logging LoggingSettings.ofSource? logging }
  | _ => none

/-! ### Writing -/

/-- Settings as JSON. -/
def toJson (s : Settings) : Json :=
  Json.record
    [("index", Json.record
        [("file_name", Json.text s.index.fileName),
         ("max_parent_search", .int s.index.maxParentSearch.toNat),
         ("declaration_extensions", .arr (s.index.extensions.map Extension.toJson))]),
     ("output", Json.record [("format", Json.text s.output.format.name)]),
     ("logging", Json.record
        [("enabled", .bool s.logging.enabled),
         ("stderr", .bool s.logging.stderr),
         ("level", Json.text s.logging.level),
         ("directory", Json.text s.logging.directory),
         ("rotation", Json.text s.logging.rotation),
         ("file_prefix", Json.text s.logging.filePrefix)])]

end Settings

end SymbolSearch
