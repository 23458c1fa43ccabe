import Std.Time.DateTime
import StackMachine.Session

/-!
# The command line program

Carries out a command line with the files, the console and the clock of the system.
-/

namespace StackMachine.Main

/-! ## The system -/

/-- The name that the usage shows. -/
def programName : String := "stackemu"

/-- The reason that a failed operation gives. -/
def reason : IO.Error → String
  | .noFileOrDirectory _ _ _ => PathError.notFound.message
  | .inappropriateType _ 21 _ => PathError.isDirectory.message
  | .inappropriateType _ _ _ => PathError.notDirectory.message
  | e => toString e

/-- The answer of an operation, or the reason why it failed. -/
def attempt {α : Type} (operation : IO α) : IO (Except String α) := do
  match ← operation.toBaseIO with
  | .ok a => return .ok a
  | .error e => return .error (reason e)

/-- The variables that matter to a command. -/
def environment : IO Environment := do
  let names := [Options.levelVariable, Options.promptVariable, "TERM", "NO_COLOR"]
  let values ← names.mapM fun name => return (name, ← IO.getEnv name)
  return ⟨values.filterMap fun (name, value) => value.map (name, ·)⟩

/-- The content of a file. -/
def content (path : String) : IO (Except String Bytes) :=
  attempt do return (← IO.FS.readBinFile path).data.toList

/-- Two or more digits. -/
def digits (width n : Nat) : String :=
  String.ofList (List.replicate (width - (toString n).length) '0') ++ toString n

/-- The present time, as log lines show it. -/
def time : IO String := do
  let now := (← Std.Time.Timestamp.now).toMillisecondsSinceUnixEpoch.val
  let date := Std.Time.PlainDate.ofEpochDay (Std.Time.Day.Offset.ofInt (now / 86400000))
  let rest := (now % 86400000).toNat
  return digits 4 date.year.toInt.toNat ++ "-" ++ digits 2 date.month.toNat ++ "-" ++
    digits 2 date.day.toNat ++ " " ++ digits 2 (rest / 3600000) ++ ":" ++
    digits 2 (rest / 60000 % 60) ++ ":" ++ digits 2 (rest / 1000 % 60) ++ "." ++
    digits 3 (rest % 1000)

/-- How entries are logged. -/
structure Logger where
  settings : Log.Settings
  colours : Bool

/-- Logs an entry. -/
def Logger.report (log : Logger) (e : Log.Entry) : IO Unit := do
  IO.eprint (log.settings.render log.colours (← time) e)

/-! ## The console -/

/-- Writes bytes to the output at once. -/
def put (bytes : Bytes) : IO (Except String Unit) := do
  let output ← IO.getStdout
  attempt do
    output.write ⟨bytes.toArray⟩
    output.flush

/-- Takes a line of the input, with its newline. -/
partial def inputLine (input : IO.FS.Stream) (line : Bytes) : IO Bytes := do
  match (← input.read 1).data.toList with
  | [] => return line.reverse
  | b :: _ => if b = newline then return (b :: line).reverse else inputLine input (b :: line)

/-- Takes lines of the input until there is a word to read, a failure to report or no input. -/
partial def supply (s : Stream) : IO Stream := do
  if !s.pending.isEmpty then return s
  let line ← inputLine (← IO.getStdin) []
  match Stream.wordsOfLine line with
  | .ok [] => if line.isEmpty then return s else supply s
  | _ => return { s with input := [line] }

/-- Completes an action on the console of the system. -/
def perform (prompt : Option String) (s : Stream) :
    Action Machine → IO (Outcome Machine × Stream)
  | .settle outcome => return (outcome, s)
  | .read resume => do
    match ← put (utf8 (prompt.getD "")) with
    | .error reason => return (resume (.error (.cause (.consoleError reason))), s)
    | .ok () =>
      let (answer, s) := Stream.console.read (← supply s)
      return (resume answer, s)
  | .write value resume => do
    match ← put (utf8 (Decimal.write value) ++ [newline]) with
    | .error reason => return (resume (.error (.cause (.consoleError reason))), s)
    | .ok () => return (resume (.ok ()), s)

/-- Runs a machine until it halts or fails. -/
partial def runMachine (log : Logger) (prompt : Option String) (m : Machine) (s : Stream) :
    IO (Except Fault Unit × Machine) := do
  if log.settings.shows .debug then
    m.traceLine?.forM fun line => log.report ⟨.debug, line⟩
  match m.action? with
  | none => return (.ok (), m)
  | some action =>
    let (outcome, s) ← perform prompt s action
    match Machine.settle outcome with
    | (.error f, m) => return (.error f, m)
    | (.ok false, m) => return (.ok (), m)
    | (.ok true, m) => runMachine log prompt m s

/-! ## Commands -/

/-- Builds an image. -/
def build (log : Logger) (source : String) (output : Option String) : IO UInt32 := do
  let (answer, entries) := Build.ofSource source (← content source)
  entries.forM log.report
  match answer with
  | .error f =>
    (Session.buildReport f).forM log.report
    return 1
  | .ok p =>
    let output := output.getD (imagePath source)
    match ← attempt (IO.FS.writeBinFile output ⟨p.image.toArray⟩) with
    | .error reason =>
      discard <| attempt (IO.FS.removeFile output)
      (Session.buildReport (.cause (.fileError output reason))).forM log.report
      return 1
    | .ok () =>
      log.report (Build.success source p output)
      return 0

/-- Runs an image. -/
def runImage (log : Logger) (prompt : Option String) (path : String) : IO UInt32 := do
  match Session.loadFile path (← content path) with
  | .error f =>
    log.report (Session.failure path f)
    return 1
  | .ok p =>
    log.report (Session.loaded path p)
    match ← runMachine log prompt (Machine.start p) {} with
    | (.error f, _) =>
      log.report (Session.failure path f)
      return 1
    | (.ok (), m) =>
      log.report ⟨.debug, m.haltLine⟩
      return 0

end StackMachine.Main

open StackMachine StackMachine.Main in
/-- Carries out the command line. -/
def main (arguments : List String) : IO UInt32 := do
  let env ← environment
  match Options.parse arguments env with
  | .error e =>
    IO.eprint (Session.mistakeText programName e)
    return 1
  | .ok options =>
    let log : Logger := { settings := options.logSettings, colours := Log.coloured env }
    match options.command with
    | .help =>
      IO.eprint (usage programName ++ "\n")
      return 0
    | .build source output => build log source output
    | .run image => runImage log options.prompt image
