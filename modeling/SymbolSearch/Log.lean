import SymbolSearch.Text.Hex

/-!
# Logs

Events have a level and a message. A log keeps the events from a level on, in a file whose name
tells when it was begun.

## Main definitions

* `Log.Level`, `Log.Event` — what is logged
* `Log.Event.text` — what is written of an event
* `Log.Rotation` — how often a new file is begun
* `Log.fileName` — the name of the file at a moment
* `Log.atLeast` — the events from a level on
-/

namespace SymbolSearch.Log

/-- How much an event matters, the least first. -/
inductive Level where
  | trace
  | debug
  | info
  | warn
  | error
  deriving DecidableEq, Repr

namespace Level

/-- The name of a level in lower case. -/
def name : Level → String
  | .trace => "trace"
  | .debug => "debug"
  | .info => "info"
  | .warn => "warn"
  | .error => "error"

/-- All levels. -/
def all : List Level := [.trace, .debug, .info, .warn, .error]

/-- The number of levels below a level. -/
def rank : Level → Nat
  | .trace => 0
  | .debug => 1
  | .info => 2
  | .warn => 3
  | .error => 4

/-- The level of a name in any case. -/
def ofName? (name : String) : Option Level := all.find? fun level => level.name == name.toLower

end Level

/-- Something that happened. -/
structure Event where
  /-- How much it matters. -/
  level : Level
  /-- What happened. -/
  message : String
  /-- Names and values that belong to it. -/
  fields : List (String × String)
  deriving DecidableEq, Repr

/-- A character of a message as it is written: one that could steer a terminal is written as its
code. -/
def escapeChar (c : Char) : List Char :=
  let code := [Text.hexDigit 'a' (c.toNat / 16), Text.hexDigit 'a' (c.toNat % 16)]
  if c = '\x1b' ∨ c = '\x07' ∨ c = '\x08' ∨ c = '\x0c' ∨ c = '\x7f' then '\\' :: 'x' :: code
  else if 0x80 ≤ c.toNat ∧ c.toNat ≤ 0x9f then
    ['\\', 'u', '\x7b'] ++ code ++ ['\x7d']
  else [c]

/-- A message as it is written. -/
def escape (message : String) : String := String.ofList (message.toList.flatMap escapeChar)

/-- What is written of an event: its message and its fields, whose values stand as they are. -/
def Event.text (event : Event) : String :=
  " ".intercalate
    (escape event.message :: event.fields.map fun (name, value) => name ++ "=" ++ value)

/-- The events from a level on. -/
def atLeast (level : Level) (events : List Event) : List Event :=
  events.filter fun event => level.rank ≤ event.level.rank

/-- An event as a line. -/
def Event.line (event : Event) : String :=
  event.level.name.toUpper ++ " " ++ event.text ++ "\n"

/-! ### Log files -/

/-- How often a new log file is begun. -/
inductive Rotation where
  | minutely
  | hourly
  | daily
  | never
  deriving DecidableEq, Repr

namespace Rotation

/-- The name of a rotation in lower case. -/
def name : Rotation → String
  | .minutely => "minutely"
  | .hourly => "hourly"
  | .daily => "daily"
  | .never => "never"

/-- All rotations. -/
def all : List Rotation := [.minutely, .hourly, .daily, .never]

/-- The rotation of a name in any case. -/
def ofName? (name : String) : Option Rotation :=
  all.find? fun rotation => rotation.name == name.toLower

end Rotation

/-- A moment, to the minute. -/
structure Moment where
  year : Nat
  month : Nat
  day : Nat
  hour : Nat
  minute : Nat
  deriving DecidableEq, Repr

/-- A number with zeros in front up to a width. -/
def padded (width n : Nat) : String :=
  let digits := Nat.toDigits 10 n
  String.ofList (List.replicate (width - digits.length) '0' ++ digits)

namespace Moment

/-- The year, month and day of a number of days since the start of 1970. Years are counted from
March on, so that a leap day is the last of its year, and four hundred of them have 146097 days. -/
def ofDays (days : Nat) : Nat × Nat × Nat :=
  let sinceMarch := days + 719468
  let inEra := sinceMarch % 146097
  let yearInEra := (inEra - inEra / 1460 + inEra / 36524 - inEra / 146096) / 365
  let inYear := inEra - (365 * yearInEra + yearInEra / 4 - yearInEra / 100)
  let march := (5 * inYear + 2) / 153
  let day := inYear - (153 * march + 2) / 5 + 1
  let month := if march < 10 then march + 3 else march - 9
  let year := yearInEra + sinceMarch / 146097 * 400
  (if month ≤ 2 then year + 1 else year, month, day)

/-- The moment a number of seconds after the start of 1970. -/
def ofSeconds (seconds : Nat) : Moment :=
  let (year, month, day) := ofDays (seconds / 86400)
  ⟨year, month, day, seconds % 86400 / 3600, seconds % 3600 / 60⟩

/-- The day of a moment. -/
def date (m : Moment) : String := padded 4 m.year ++ "-" ++ padded 2 m.month ++ "-" ++ padded 2 m.day

/-- A moment as exactly as a rotation tells files apart. -/
def stamp (m : Moment) : Rotation → String
  | .minutely => m.date ++ "-" ++ padded 2 m.hour ++ "-" ++ padded 2 m.minute
  | .hourly => m.date ++ "-" ++ padded 2 m.hour
  | .daily => m.date
  | .never => m.date

end Moment

/-- The name of the log file at a moment: the given start and the stamp. The stamp is left out when
no new file is ever begun, and it is the whole name when no start is given. -/
def fileName (rotation : Rotation) (start : String) (m : Moment) : String :=
  if start.isEmpty then m.stamp rotation
  else if rotation = .never then start
  else start ++ "." ++ m.stamp rotation

end SymbolSearch.Log
