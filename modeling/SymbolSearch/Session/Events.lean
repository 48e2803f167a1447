import SymbolSearch.Log
import SymbolSearch.Session

/-!
# Events of a session

What is logged while a request is answered, in order. Each stage has its events, and the events of a
request end with the stage that fails.

## Main definitions

* `Session.events` — the events of a request
-/

namespace SymbolSearch.Session

open Log

/-- A number in decimal. -/
def count (n : Nat) : String := String.ofList (Nat.toDigits 10 n)

/-- An event of level `trace`. -/
def traced (message : String) (fields : List (String × String)) : Event := ⟨.trace, message, fields⟩

/-- An event of level `debug`. -/
def debugged (message : String) (fields : List (String × String)) : Event :=
  ⟨.debug, message, fields⟩

/-- An event of level `info` without fields. -/
def informed (message : String) : Event := ⟨.info, message, []⟩

/-- The candidates of a search up to the first that is a file. -/
def tried (s : Session) : List String → List String
  | [] => []
  | path :: rest => if s.tree.isFile s.cwd path then [path] else path :: s.tried rest

/-- The events of a search upward: its start, each path tried, and how it ended. A search that runs
out of directories ends without an event. -/
def searchEvents (s : Session) (l : Locator) : List Event :=
  let ending :=
    match l.search? s.tree s.cwd s.root with
    | some path => [debugged "Found SCIP index" [("path", path)]]
    | none =>
      if l.limit < (Locator.directories s.tree s.cwd s.root).length then
        [debugged "Reached search limit without finding SCIP index"
          [("max_parent_search", count l.limit)]]
      else []
  debugged "Searching for SCIP index" [("file_name", l.fileName)] ::
    (s.tried (l.candidates s.tree s.cwd s.root)).map
      (fun path => traced "Checking for SCIP index" [("candidate", path)]) ++ ending

/-- The events of finding the index file. -/
def locateEvents (s : Session) (l : Locator) : Option String → List Event
  | some path =>
    if s.tree.contains s.cwd path then [debugged "Using explicit SCIP index" [("path", path)]]
    else []
  | none => s.searchEvents l

/-- The events of decoding the bytes of an index file. -/
def decodeEvents (bytes : List UInt8) : List Event :=
  match IndexFile.decodeForm bytes with
  | .ok (.empty, _) => []
  | .ok (.json, _) => [debugged "Decoded index as JSON" []]
  | .ok (.binary, _) => notJson ++ [debugged "Decoded index as protobuf" []]
  | .error _ => notJson
where
  notJson : List Event :=
    if IndexFile.looksLikeJsonFile bytes then [debugged "Content is not a JSON SCIP index" []]
    else []

/-- The events of loading the index file at a path. -/
def loadEvents (s : Session) (path : String) : List Event :=
  match IndexFile.readBytes s.tree s.cwd path with
  | .error _ => []
  | .ok bytes =>
    let loaded :=
      match IndexFile.decode bytes with
      | .ok documents =>
        [informed ("Loaded " ++ count documents.length ++ " documents from " ++ path)]
      | .error _ => []
    debugged "Read SCIP index" [("path", path)] :: decodeEvents bytes ++ loaded

/-- The events of building an index: each record left out, and the size of the index. -/
def buildEvents (index : Index) : List Event :=
  List.replicate index.skippedCount (traced "Skipping malformed occurrence" []) ++
    [informed ("Built symbol index with " ++ count index.symbolCount ++ " occurrences under " ++
        count index.keyCount ++ " keys across " ++ count index.fileCount ++ " files (" ++
        count index.skippedCount ++ " skipped)")]

/-- The events of one search in an index. -/
def findEvents (query : String) (hits : Nat) : List Event :=
  if query.isEmpty then []
  else
    [debugged "Searching symbol index" [("query", query)],
     debugged ("Found " ++ count hits ++ " occurrences for '" ++ query ++ "'") []]

/-- The events of answering a request from an index, which may take a second, wider search. -/
def answerEvents (index : Index) (request : Request) : List Event :=
  let narrow := Query.find index request.symbol request.filter
  let answer := request.answer index
  let widened :=
    if request.format = .text && request.definingFile.isSome && narrow.isEmpty then
      findEvents request.symbol answer.hits.length
    else []
  findEvents request.symbol narrow.length ++ widened ++
    [debugged (count answer.hits.length ++ " results for '" ++ request.symbol ++ "'") []]

/-- The events of a request. -/
def requestEvents (s : Session) (settings : Settings) (request : Request) : List Event :=
  let running : Event :=
    ⟨.info, "Running find", [("symbol", request.symbol), ("format", request.format.name)]⟩
  let loading :=
    match s.indexFile settings request with
    | .ok path => s.loadEvents path
    | .error _ => []
  let answering :=
    match s.openIndex settings request with
    | .ok index => buildEvents index ++ answerEvents index request
    | .error _ => []
  running :: s.locateEvents (locator settings) request.indexFile ++ loading ++ answering

/-- The events of a session that answers a request. Settings that cannot be loaded are reported
first. -/
def events (s : Session) (settings : Settings) (fault : Option Settings.Fault)
    (request : Request) : List Event :=
  let ignored := fault.toList.map fun f => ⟨.warn, "Ignoring configuration: " ++ f.message, []⟩
  ignored ++ debugged ("Working directory: " ++ s.root) [] :: s.requestEvents settings request

end SymbolSearch.Session
