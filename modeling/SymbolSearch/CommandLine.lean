import SymbolSearch.Request
import SymbolSearch.Settings

/-!
# The command line

Arguments are read from left to right: options with a value, one symbol, and requests for help. The
first problem that is met counts. An option whose value stands behind an equals sign is settled at
once. One whose value is an argument of its own is settled only when the next argument that belongs
to another one is met, so its own problems come up there.

## Main definitions

* `CommandLine.Invocation` — what a command line asks for
* `CommandLine.Stop` — why a command line asks for nothing
* `CommandLine.parse` — reading the arguments
* `CommandLine.helpText` — the help on the command line
-/

namespace SymbolSearch.CommandLine

/-- The options that take a value. -/
inductive Flag where
  | indexFile
  | definingFile
  | folder
  | format
  deriving DecidableEq, Repr

namespace Flag

/-- The name of an option, behind two dashes. -/
def name : Flag → String
  | .indexFile => "scip"
  | .definingFile => "from"
  | .folder => "folder"
  | .format => "format"

/-- All options. -/
def all : List Flag := [.indexFile, .definingFile, .folder, .format]

/-- The option of a name. -/
def ofName? (name : String) : Option Flag := all.find? fun flag => flag.name == name

/-- Whether an option takes a value. -/
def accepts : Flag → String → Bool
  | .indexFile, value => !value.isEmpty
  | .definingFile, _ => true
  | .folder, _ => true
  | .format, value => (Format.ofName? value).isSome

end Flag

/-- What is wrong with a command line. -/
inductive Fault where
  /-- An option that does not exist, or a second symbol. -/
  | unknownArgument
  /-- An option without its value, or with a value it does not take. -/
  | invalidValue
  /-- A value for an option that takes none. -/
  | tooManyValues
  /-- An option that is given twice. -/
  | givenTwice
  /-- No symbol. -/
  | missingSymbol
  deriving DecidableEq, Repr

/-- The words for a fault. -/
def Fault.message : Fault → String
  | .unknownArgument => "unexpected argument found"
  | .invalidValue => "a value is missing or invalid"
  | .tooManyValues => "unexpected value for an option that takes none"
  | .givenTwice => "an option cannot be used multiple times"
  | .missingSymbol => "the following required arguments were not provided: <SYMBOL>"

/-- Why a command line asks for no search. -/
inductive Stop where
  /-- Something is wrong with it. -/
  | fault (f : Fault)
  /-- It asks for help, at length or not. -/
  | help (isLong : Bool)
  /-- It asks for the version. -/
  | version
  deriving DecidableEq, Repr

/-- What a command line asks for. -/
structure Invocation where
  /-- The query. -/
  symbol : String
  /-- The index file. -/
  indexFile : Option String
  /-- The file that has to define the symbol. -/
  definingFile : Option String
  /-- The folder the occurrences have to be in. -/
  folder : Option String
  /-- The form of the report, if one is asked for. -/
  format : Option Format
  deriving DecidableEq, Repr

/-- The request of a command line under settings, which give the form of the report when the command
line does not. -/
def Invocation.request (i : Invocation) (settings : Settings) : Request :=
  ⟨i.symbol, i.indexFile, i.definingFile, i.folder, i.format.getD settings.output.format⟩

/-! ### Reading arguments -/

/-- What is known after some of the arguments. -/
structure State where
  /-- The option met last, with its value if there is one, while it is not settled. -/
  pending : Option (Flag × Option String)
  /-- The settled options. -/
  given : List (Flag × String)
  /-- The symbol. -/
  symbol : Option String
  /-- Whether all further arguments are symbols. -/
  symbolsOnly : Bool
  deriving DecidableEq, Repr

namespace State

/-- Nothing read yet. -/
def start : State := ⟨none, [], none, false⟩

/-- Settles an option with its value. -/
def give (s : State) (flag : Flag) (value : String) : Except Stop State :=
  if (s.given.lookup flag).isSome then .error (.fault .givenTwice)
  else if flag.accepts value then .ok { s with given := (flag, value) :: s.given }
  else .error (.fault .invalidValue)

/-- Settles the option that is not settled yet. -/
def settle (s : State) : Except Stop State :=
  match s.pending with
  | none => .ok s
  | some (_, none) => .error (.fault .invalidValue)
  | some (flag, some value) => { s with pending := none }.give flag value

/-- An argument that is no option: the value of the last option if that lacks one and options are
still read, or else the symbol. -/
def readPlain (s : State) (argument : String) : Except Stop State :=
  match s.pending, s.symbolsOnly with
  | some (flag, none), false => .ok { s with pending := some (flag, some argument) }
  | _, _ =>
    if s.symbol.isSome then .error (.fault .unknownArgument)
    else do
      let s ← s.settle
      return { s with symbol := some argument }

/-- Settles the last option and stops. -/
def settleAndStop (s : State) (stop : Stop) : Except Stop State := do
  let _ ← s.settle
  .error stop

/-- An option by its name. With a value behind an equals sign it is settled at once, otherwise its
value is still to come. -/
def readNamed (s : State) (name : String) (value : Option String) : Except Stop State :=
  if name == "help" || name == "version" then
    if value.isSome then .error (.fault .tooManyValues)
    else s.settleAndStop (if name == "help" then .help true else .version)
  else
    match Flag.ofName? name with
    | none => .error (.fault .unknownArgument)
    | some flag => do
      let s ← s.settle
      match value with
      | some value => s.give flag value
      | none => return { s with pending := some (flag, none) }

/-- Splits a text at its first equals sign. -/
def splitValue (s : List Char) : String × Option String :=
  match s.dropWhile (· != '=') with
  | [] => (String.ofList s, none)
  | _ :: value => (String.ofList (s.takeWhile (· != '=')), some (String.ofList value))

/-- Reads one argument. -/
def step (s : State) (argument : String) : Except Stop State :=
  if s.symbolsOnly then s.readPlain argument
  else
    match argument.toList with
    | ['-', '-'] => .ok { s with symbolsOnly := true }
    | '-' :: '-' :: rest => s.readNamed (splitValue rest).1 (splitValue rest).2
    | '-' :: 'h' :: _ => s.settleAndStop (.help false)
    | '-' :: 'V' :: _ => s.settleAndStop .version
    | '-' :: _ :: _ => .error (.fault .unknownArgument)
    | _ => s.readPlain argument

/-- What the arguments ask for, once all are read. -/
def finish (s : State) : Except Stop Invocation := do
  let s ← s.settle
  match s.symbol with
  | none => .error (.fault .missingSymbol)
  | some symbol =>
    return { symbol
             indexFile := s.given.lookup .indexFile
             definingFile := s.given.lookup .definingFile
             folder := s.given.lookup .folder
             format := (s.given.lookup .format).bind Format.ofName? }

end State

/-- What a list of arguments asks for. -/
def parse (arguments : List String) : Except Stop Invocation := do
  (← arguments.foldlM State.step State.start).finish

/-! ### Texts -/

/-- The name and version of the program. -/
def versionText : String := "scip-finder 0.1.0\n"

/-- What the program does and how it is called. -/
def usageLines : List String :=
  ["Search for symbols in SCIP code intelligence indexes", "",
   "Usage: scip-finder [OPTIONS] <SYMBOL>", ""]

/-- The arguments in short. -/
def shortLines : List String :=
  ["Arguments:",
   "  <SYMBOL>  Symbol name to search for (case-sensitive exact match)", "",
   "Options:",
   "      --scip <PATH>      Path to SCIP index file (searched for upward if not provided)",
   "      --from <FILE>      Only show symbols defined in this file",
   "      --folder <PATH>    Only show occurrences in files within this folder",
   "      --format <FORMAT>  Output format (defaults to the configured format, text otherwise) " ++
     "[possible values: text, json]",
   "  -h, --help             Print help (see more with '--help')",
   "  -V, --version          Print version", ""]

/-- The arguments at length. -/
def longLines : List String :=
  ["Arguments:",
   "  <SYMBOL>",
   "          Symbol name to search for (case-sensitive exact match)", "",
   "Options:",
   "      --scip <PATH>",
   "          Path to SCIP index file (searched for upward if not provided)", "",
   "      --from <FILE>",
   "          Only show symbols defined in this file", "",
   "      --folder <PATH>",
   "          Only show occurrences in files within this folder", "",
   "      --format <FORMAT>",
   "          Output format (defaults to the configured format, text otherwise)", "",
   "          Possible values:",
   "          - text: grep-style `file:line:column: Role` lines",
   "          - json: Pretty-printed JSON document", "",
   "  -h, --help",
   "          Print help (see a summary with '-h')", "",
   "  -V, --version",
   "          Print version", ""]

/-- Examples of calls. -/
def exampleLines : List String :=
  ["Examples:",
   "  $ scip-finder MyFunction",
   "  $ scip-finder MyThing.myProp",
   "  $ scip-finder MyThing.method()",
   "  $ scip-finder --scip ./index.scip SymbolName",
   "  $ scip-finder --from lib/main.ts SymbolName",
   "  $ scip-finder --folder src/ SymbolName",
   "  $ scip-finder --format json SymbolName", "",
   "Property/method search is detected from the query:",
   "  - \"Thing.prop\" searches properties only",
   "  - \"Thing.method()\" searches methods only",
   "  - \"Thing\" searches all symbol kinds"]

/-- The help on the command line, at length or not. -/
def helpText (isLong : Bool) : String :=
  let arguments := if isLong then longLines else shortLines
  String.join ((usageLines ++ arguments ++ exampleLines).map (· ++ "\n"))

end SymbolSearch.CommandLine
