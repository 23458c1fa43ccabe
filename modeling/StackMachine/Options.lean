import StackMachine.Environment
import StackMachine.Log

/-!
# Command line options

What a command line asks for. Arguments are read from left to right; environment variables supply
the log level and the prompt where no flag does.

* `Options.Scan.arguments`: reads the arguments, up to a request for help or the first mistake.
* `Options.parse`: the options of a command line.
-/

namespace StackMachine

/-! ## Commands -/

/-- What is to be done; files are given by their paths. -/
inductive Command
  | build (source : String) (output : Option String)
  | run (image : String)
  | help
  deriving DecidableEq, Repr

/-- A command and the settings it runs with. -/
structure Options where
  command : Command
  level : Log.Level
  timestamps : Bool
  /-- Written before each integer that a program reads. -/
  prompt : Option String
  deriving DecidableEq, Repr

/-- Why a command line makes no sense. -/
inductive UsageError
  | missingCommand
  | unknownCommand (name : String)
  | missingPath (command : String)
  | missingValue (flag : String)
  | unexpectedArgument (argument : String)
  | flagNotAllowed (flag command : String)
  | invalidLogLevel (name value : String)
  deriving DecidableEq, Repr

/-- The text that reports a mistake. -/
def UsageError.message : UsageError → String
  | missingCommand => "missing command"
  | unknownCommand name => s!"unknown command \"{name}\""
  | missingPath command => s!"{command} requires a file argument"
  | missingValue flag => s!"{flag} requires an argument"
  | unexpectedArgument argument => s!"unexpected argument \"{argument}\""
  | flagNotAllowed flag command => s!"{flag} is only valid for {command}"
  | invalidLogLevel name value => s!"invalid log level \"{value}\" in {name}"

namespace Options

/-- The variable that names the log level. -/
def levelVariable : String := "STACKEMU_LOG"

/-- The variable that holds the prompt. -/
def promptVariable : String := "STACKEMU_PROMPT"

/-! ## Reading the arguments -/

/-- What was read of a command line so far. -/
structure Scan where
  level : Log.Level
  timestamps : Bool := true
  prompt : Option String
  /-- The prompt was given by a flag. -/
  promptGiven : Bool := false
  output : Option String := none
  /-- The arguments that are no options, at most a command and a path. -/
  name : Option String := none
  path : Option String := none
  deriving DecidableEq, Repr

/-- The end of reading: all arguments were read, or a request for help came first. -/
inductive Reading
  | complete (scan : Scan)
  | help (scan : Scan)
  deriving DecidableEq, Repr

/-- The flags, by what they do. -/
inductive Flag
  | help
  | level (level : Log.Level)
  | noTimestamp
  /-- Takes the next argument as path. -/
  | output
  /-- Takes the next argument as text. -/
  | prompt
  deriving DecidableEq, Repr

/-- The flag that an argument spells. -/
def Flag.ofArgument? : String → Option Flag
  | "-h" | "--help" => some help
  | "-v" | "--verbose" => some (level .debug)
  | "-q" | "--quiet" => some (level .error)
  | "--no-timestamp" => some noTimestamp
  | "-o" | "--output" => some output
  | "--prompt" => some prompt
  | _ => none

/-- An argument that looks like a flag: a dash with more behind it. -/
def looksLikeFlag (argument : String) : Bool :=
  match argument.toList with
  | '-' :: _ :: _ => true
  | _ => false

namespace Scan

/-- Takes an argument that is no flag as command or as path. -/
def positional (scan : Scan) (argument : String) : Except UsageError Scan :=
  if looksLikeFlag argument then .error (.unexpectedArgument argument)
  else if scan.name.isNone then .ok { scan with name := some argument }
  else if scan.path.isNone then .ok { scan with path := some argument }
  else .error (.unexpectedArgument argument)

/-- Reads arguments from left to right. -/
def arguments (scan : Scan) : List String → Except UsageError Reading
  | [] => .ok (.complete scan)
  | argument :: rest =>
    match Flag.ofArgument? argument with
    | some .help => .ok (.help scan)
    | some (.level level) => arguments { scan with level } rest
    | some .noTimestamp => arguments { scan with timestamps := false } rest
    | some .output =>
      match rest with
      | [] => .error (.missingValue argument)
      | value :: rest => arguments { scan with output := some value } rest
    | some .prompt =>
      match rest with
      | [] => .error (.missingValue argument)
      | value :: rest => arguments { scan with prompt := some value, promptGiven := true } rest
    | none =>
      match scan.positional argument with
      | .error e => .error e
      | .ok scan => arguments scan rest

/-- The command that a completely read command line names. -/
def command (scan : Scan) : Except UsageError Command :=
  match scan.name with
  | none => .error .missingCommand
  | some "build" =>
    if scan.promptGiven then .error (.flagNotAllowed "--prompt" "run")
    else match scan.path with
      | none => .error (.missingPath "build")
      | some source => .ok (.build source scan.output)
  | some "run" =>
    if scan.output.isSome then .error (.flagNotAllowed "--output" "build")
    else match scan.path with
      | none => .error (.missingPath "run")
      | some image => .ok (.run image)
  | some name => .error (.unknownCommand name)

/-- The settings read so far, with a command. -/
def withCommand (scan : Scan) (command : Command) : Options :=
  { command, level := scan.level, timestamps := scan.timestamps, prompt := scan.prompt }

end Scan

/-! ## Options -/

/-- The log level that the environment asks for. -/
def environmentLevel (env : Environment) : Except UsageError Log.Level :=
  match env.get? levelVariable with
  | none => .ok .info
  | some value =>
    match Log.Level.ofName? value with
    | some level => .ok level
    | none => .error (.invalidLogLevel levelVariable value)

/-- The options of a command line, given without the name of the program. -/
def parse (arguments : List String) (env : Environment) : Except UsageError Options :=
  match environmentLevel env with
  | .error e => .error e
  | .ok level =>
    match Scan.arguments { level, prompt := env.get? promptVariable } arguments with
    | .error e => .error e
    | .ok (.help scan) => .ok (scan.withCommand .help)
    | .ok (.complete scan) =>
      match scan.command with
      | .error e => .error e
      | .ok command => .ok (scan.withCommand command)

/-- The log settings of a command. -/
def logSettings (options : Options) : Log.Settings :=
  { level := options.level, timestamps := options.timestamps }

end Options

end StackMachine
