import SymbolSearch.CommandLine
import SymbolSearch.Session.Events

/-!
# The program

A run of the program takes a command line and a session and gives what is printed, what is logged
and an exit code.

## Main definitions

* `Program.Result` — what a run gives
* `Program.run` — a run of the program
* `Program.paths` — the paths that a run looks at
-/

namespace SymbolSearch.Program

open Files Log

/-- The log file of a run. -/
structure LogFile where
  /-- The directory of the file. -/
  directory : String
  /-- The path of the file. -/
  path : String
  /-- The events that are written. -/
  events : List Event
  deriving DecidableEq, Repr

/-- What a run gives. -/
structure Result where
  /-- The exit code. -/
  code : UInt8
  /-- What is printed. -/
  stdout : String
  /-- What is printed as warnings and errors. -/
  stderr : String
  /-- The events that are shown to the user. -/
  notices : List Event
  /-- The log file, if one is written. -/
  log : Option LogFile
  /-- The files after the run. -/
  tree : Tree
  deriving DecidableEq, Repr

/-! ### Logging -/

/-- What the settings of logging come to. -/
structure Logging where
  /-- The level from which events are written. -/
  level : Level
  /-- How often a new file is begun. -/
  rotation : Rotation
  /-- Warnings about settings that have no meaning. -/
  warnings : String
  deriving DecidableEq, Repr

/-- What the settings of logging come to: an unknown rotation counts as daily and an unknown level as
`debug`. -/
def Logging.ofSettings (s : LoggingSettings) : Logging :=
  let rotationWarning :=
    match Rotation.ofName? s.rotation with
    | some _ => ""
    | none => "Warning: Unknown rotation strategy '" ++ s.rotation ++ "', defaulting to 'daily'\n"
  let levelWarning :=
    match Level.ofName? s.level with
    | some _ => ""
    | none => "Warning: Unknown log level '" ++ s.level ++ "', defaulting to 'debug'\n"
  { level := (Level.ofName? s.level).getD .debug
    rotation := (Rotation.ofName? s.rotation).getD .daily
    warnings := rotationWarning ++ levelWarning }

/-- Begins a log file, unless it is there; its directory is made if need be. -/
def beginLog (t : Tree) (cwd : Location) (path : String) : Attempt Files.Fault :=
  match t.append cwd path [], Path.parent? path with
  | .error _, some parent =>
    (t.makeDirectories cwd parent).andThen fun t => .ofExcept t (t.append cwd path [])
  | result, _ => .ofExcept t result

/-- The log of a run: its warnings, its file and the files with it. -/
structure OpenLog where
  /-- Warnings about the settings of logging. -/
  warnings : String
  /-- The file with its events, if one is written. -/
  file : Option LogFile
  /-- The files with the log file. -/
  tree : Tree
  deriving DecidableEq, Repr

/-- The path of the log directory. -/
def logDirectory (s : Session) (settings : LoggingSettings) : String :=
  Path.join s.root settings.directory

/-- Opens the log of a session. A failure comes with the files it leaves. -/
def openLog (s : Session) (settings : LoggingSettings) (now : Moment) :
    Except (Session.Failure × Tree) OpenLog :=
  if !settings.enabled then .ok ⟨"", none, s.tree⟩
  else
    let directory := logDirectory s settings
    match s.tree.makeDirectories s.cwd directory with
    | ⟨t, some fault⟩ => .error (.logDirectory directory fault, t)
    | ⟨t, none⟩ =>
      let logging := Logging.ofSettings settings
      let path := Path.join directory (fileName logging.rotation settings.filePrefix now)
      match beginLog t s.cwd path with
      | ⟨t, some fault⟩ => .error (.logFile path fault, t)
      | ⟨t, none⟩ => .ok ⟨logging.warnings, some ⟨directory, path, []⟩, t⟩

/-- Writes events to an open log, those below its level left out. -/
def OpenLog.write (log : OpenLog) (s : Session) (settings : LoggingSettings)
    (events : List Event) : OpenLog :=
  match log.file with
  | none => log
  | some file =>
    let written := atLeast (Logging.ofSettings settings).level events
    let bytes := (String.join (written.map Event.line)).toUTF8.data.toList
    let tree := ((log.tree.append s.cwd file.path bytes).toOption).getD log.tree
    { log with file := some { file with events := written }, tree }

/-! ### Running -/

/-- The exit code of a failure. A log file that cannot be opened ends the program at once. -/
def failureCode : Session.Failure → UInt8
  | .logFile _ _ => 101
  | _ => 1

/-- The result for a command line that asks for no search. -/
def stopped (t : Tree) : CommandLine.Stop → Result
  | .help isLong => ⟨0, CommandLine.helpText isLong, "", [], none, t⟩
  | .version => ⟨0, CommandLine.versionText, "", [], none, t⟩
  | .fault f => ⟨2, "", "error: " ++ f.message ++ "\n", [], none, t⟩

/-- The texts of an answer: the report, and the warning with an empty line. -/
def answered (request : Request) (answer : Answer) : String × String :=
  let warning :=
    match answer.warning with
    | some warning => warning ++ "\n\n"
    | none => ""
  (request.report answer ++ "\n", warning)

/-- A run for a request under given settings. -/
def runRequest (s : Session) (settings : Settings) (fault : Option Settings.Fault)
    (request : Request) (now : Moment) : Result :=
  match openLog s settings.logging now with
  | .error (failure, t) => ⟨failureCode failure, "", failure.display, [], none, t⟩
  | .ok log =>
    let s := { s with tree := log.tree }
    let events := s.events settings fault request
    let log := log.write s settings.logging events
    let notices := if settings.logging.stderr then atLeast .warn events else []
    match s.openIndex settings request with
    | .error failure =>
      ⟨failureCode failure, "", log.warnings ++ failure.display, notices, log.file, log.tree⟩
    | .ok index =>
      let (report, warning) := answered request (request.answer index)
      ⟨0, report, log.warnings ++ warning, notices, log.file, log.tree⟩

/-- The paths that a run looks at besides the settings: the index file or the places it may be at, and
the log file. -/
def paths (s : Session) (settings : Settings) (request : Request) (now : Moment) : List String :=
  let indexFiles :=
    match request.indexFile with
    | some path => [Path.join s.root path]
    | none => (Session.locator settings).candidates s.tree s.cwd s.root
  let logFiles :=
    if settings.logging.enabled then
      [Path.join (logDirectory s settings.logging)
        (fileName (Logging.ofSettings settings.logging).rotation settings.logging.filePrefix now)]
    else []
  indexFiles ++ logFiles

/-- A run of the program. Settings that cannot be loaded are replaced by the standard ones. -/
def run (s : Session) (arguments : List String) (now : Moment) : Result :=
  match CommandLine.parse arguments with
  | .error stop => stopped s.tree stop
  | .ok invocation =>
    match s.settings with
    | .ok settings => runRequest s settings none (invocation.request settings) now
    | .error fault =>
      runRequest s Settings.standard (some fault) (invocation.request Settings.standard) now

end SymbolSearch.Program
