import SymbolSearch.Settings
import SymbolSearch.Toml.Writer

/-!
# Settings as TOML

Settings are written with a header for each section and one for each extension. Settings whose
number of directories to search does not fit an integer of TOML cannot be written.

## Main definitions

* `Settings.blocks?` — settings as the blocks of a document
-/

namespace SymbolSearch.Settings

open Toml

/-- The block of an extension. -/
def extensionBlock (e : Extension) : Block :=
  { isElement := true
    header := ["index", "declaration_extensions"]
    entries := [("declaration", .text e.declaration), ("implementation", .text e.implementation)] }

/-- The blocks of the index section. -/
def indexBlocks (s : IndexSettings) : List Block :=
  let entries :=
    [("file_name", Scalar.text s.fileName), ("max_parent_search", .nat s.maxParentSearch.toNat)]
  let noExtensions :=
    if s.extensions.isEmpty then [("declaration_extensions", Scalar.noItems)] else []
  ⟨false, ["index"], entries ++ noExtensions⟩ :: s.extensions.map extensionBlock

/-- The block of the output section. -/
def outputBlock (s : OutputSettings) : Block :=
  ⟨false, ["output"], [("format", .text s.format.name)]⟩

/-- The block of the logging section. -/
def loggingBlock (s : LoggingSettings) : Block :=
  { isElement := false
    header := ["logging"]
    entries :=
      [("enabled", .bool s.enabled), ("stderr", .bool s.stderr), ("level", .text s.level),
       ("directory", .text s.directory), ("rotation", .text s.rotation),
       ("file_prefix", .text s.filePrefix)] }

/-- Settings as the blocks of a document, unless a number is too great for one. -/
def blocks? (s : Settings) : Option (List Block) :=
  if s.index.maxParentSearch.toNat < 0x8000000000000000 then
    some (indexBlocks s.index ++ [outputBlock s.output, loggingBlock s.logging])
  else none

end SymbolSearch.Settings
