/-!
# Declaration files

Some languages keep the declarations of a source file in a file of their own, told by its ending.
A convention lists such endings with the endings of the files they declare.

## Main definitions

* `Extension` — a declaration ending and the implementation ending it stands for
* `Convention` — a list of extensions, of which the first that fits a path counts
* `Convention.normalize` — the implementation file a path belongs to
-/

namespace SymbolSearch

/-- The ending of declaration files and the ending of the files they declare. -/
structure Extension where
  /-- The ending of a declaration file. -/
  declaration : String
  /-- The ending of its implementation file. -/
  implementation : String
  deriving DecidableEq, Repr, Inhabited

/-- Extensions in the order they are tried. -/
structure Convention where
  /-- The extensions. -/
  extensions : List Extension
  deriving DecidableEq, Repr

namespace Convention

/-- The endings used when nothing else is configured. -/
def standard : Convention :=
  ⟨[⟨".d.ts", ".ts"⟩, ⟨".d.mts", ".mts"⟩, ⟨".d.cts", ".cts"⟩]⟩

/-- Whether a path has the declaration ending; the empty ending fits nothing. -/
def fits (path : String) (extension : Extension) : Bool :=
  !extension.declaration.isEmpty && extension.declaration.toList.isSuffixOf path.toList

/-- The first extension that fits a path. -/
def matching? (convention : Convention) (path : String) : Option Extension :=
  convention.extensions.find? (fits path)

/-- Whether a path is that of a declaration file. -/
def isDeclaration (convention : Convention) (path : String) : Bool :=
  (convention.matching? path).isSome

/-- The path with a declaration ending replaced by the implementation ending. -/
def normalize (convention : Convention) (path : String) : String :=
  match convention.matching? path with
  | some extension =>
    let stem := path.toList.take (path.toList.length - extension.declaration.toList.length)
    String.ofList (stem ++ extension.implementation.toList)
  | none => path

end Convention

end SymbolSearch
