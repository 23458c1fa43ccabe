import StackMachine.Environment
import StackMachine.Text.Column

/-!
# The log

A log line shows, as far as the settings ask for it, the time, the level and the message of an
entry. Entries below the least level of the settings are not shown.

* `Log.Level.ofName?`: the level a user names; **`Log.Level.ofName?_eq_some_iff`**: by which names.
* `Log.Settings.shows`: whether an entry is shown.
* `Log.Settings.render`: the line of an entry, in colour on a terminal that has colours.
-/

namespace StackMachine.Log

/-! ## Levels -/

/-- How important an entry is, from the least important on. -/
inductive Level
  | debug
  | info
  | warn
  | error
  deriving DecidableEq, Repr

namespace Level

/-- The position of a level, from 0. -/
def rank : Level → Nat
  | debug => 0
  | info => 1
  | warn => 2
  | error => 3

/-- The name of a level as log lines show it. -/
def name : Level → String
  | debug => "DEBUG"
  | info => "INFO"
  | warn => "WARN"
  | error => "ERROR"

/-- The level that a user names. -/
def ofName? (text : String) : Option Level :=
  match text.map Char.toLower with
  | "debug" => some debug
  | "info" => some info
  | "warn" | "warning" => some warn
  | "error" => some error
  | _ => none

/-- **These names are levels**, in upper or lower case, and no others. -/
theorem ofName?_eq_some_iff {text : String} {level : Level} : ofName? text = some level ↔
    (text.map Char.toLower, level) ∈
      [("debug", debug), ("info", info), ("warn", warn), ("warning", warn), ("error", error)] := by
  unfold ofName?
  generalize text.map Char.toLower = name
  cases level <;> split <;> simp_all

end Level

/-! ## Settings and entries -/

/-- What is shown and how. -/
structure Settings where
  /-- The least level that is shown. -/
  level : Level := .info
  /-- Lines start with the time. -/
  timestamps : Bool := true
  /-- Lines name their level. -/
  tags : Bool := true
  deriving DecidableEq, Repr

/-- Something to report. -/
structure Entry where
  level : Level
  message : String
  deriving DecidableEq, Repr

/-! ## Lines -/

/-- Whether a terminal shows colours: it has a type, which is not `dumb`, and the user did not
turn colours off. -/
def coloured (env : Environment) : Bool :=
  match env.get? "TERM", env.get? "NO_COLOR" with
  | some kind, none => kind != "dumb"
  | _, _ => false

/-- The escape sequence that sets an attribute of a terminal. -/
def escape (code : String) : String :=
  "\x1b[" ++ code ++ "m"

/-- Back to plain text. -/
def plain : String := escape "0"

/-- The appearance of a level: warnings and errors are bold, and all but `info` have a colour. -/
def Level.appearance : Level → String
  | debug => plain ++ escape "36"
  | info => plain
  | warn => plain ++ escape "1" ++ escape "33"
  | error => plain ++ escape "1" ++ escape "31"

namespace Settings

/-- Whether entries of a level are shown. -/
def shows (settings : Settings) (level : Level) : Bool :=
  settings.level.rank ≤ level.rank

/-- The text of a line without its end. -/
def line (settings : Settings) (time : String) (e : Entry) : String :=
  (if settings.timestamps then time ++ " " else "") ++
    (if settings.tags then "[" ++ Column.left 5 e.level.name ++ "] " else "") ++ e.message

/-- The line of an entry, or nothing if its level is not shown. -/
def render (settings : Settings) (colours : Bool) (time : String) (e : Entry) : String :=
  if !settings.shows e.level then ""
  else if colours then e.level.appearance ++ settings.line time e ++ "\n" ++ plain
  else settings.line time e ++ "\n"

end Settings

end StackMachine.Log
