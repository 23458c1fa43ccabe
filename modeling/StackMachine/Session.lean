import StackMachine.Build
import StackMachine.Console.Stream
import StackMachine.Machine.Run
import StackMachine.Options

/-!
# Sessions

What one command line does in a file tree: the files it changes, what it writes to the output, to
the log and about its usage, and the code it exits with.

* `Session.build`, `Session.runImage`: the two commands.
* `Session.run`: a whole command line. A program that does not halt has no result for any number
  of steps.
* `Session.Result.errorText`: all that a session writes beside its output.
-/

namespace StackMachine

/-- How to use the program. -/
def usage (program : String) : String :=
  "Stack machine assembler and VM\n\nUSAGE:\n    " ++ program ++
  " [OPTIONS] build <source> [-o <output>]\n    " ++ program ++
  " [OPTIONS] run <image> [--prompt <text>]\n\nCOMMANDS:\n" ++
  "    build    Assemble <source> into a program image\n" ++
  "    run      Execute a program image\n\nOPTIONS:\n" ++
  "    -o, --output <path>    Image path for build (default: <source>.emu)\n" ++
  "    --prompt <text>        Text written before each IN\n" ++
  "    -v, --verbose          Log every executed instruction\n" ++
  "    -q, --quiet            Only log errors\n" ++
  "    --no-timestamp         Omit timestamps from log lines\n" ++
  "    -h, --help             Print this help message\n\nENVIRONMENT:\n" ++
  "    STACKEMU_LOG       Default log level (debug, info, warn, error)\n" ++
  "    STACKEMU_PROMPT    Default prompt for IN\n\nEXAMPLES:\n    " ++ program ++
  " build demos/factorial_loop.asm\n    echo 10 | " ++ program ++
  " run demos/factorial_loop.asm.emu\n"

namespace Session

/-- How a session ended. -/
structure Result where
  /-- `0` for success, `1` for failure. -/
  exit : Nat
  /-- What was written to the output. -/
  output : Bytes := []
  /-- What was written about the usage. -/
  usageText : String := ""
  /-- What was logged, shown or not. -/
  entries : List Log.Entry := []
  /-- How log entries are shown. -/
  settings : Log.Settings := {}
  tree : FileTree
  deriving DecidableEq

/-- All that a session writes beside its output. -/
def Result.errorText (r : Result) (colours : Bool) (time : String) : String :=
  r.usageText ++ String.join (r.entries.map (r.settings.render colours time))

/-! ## Commands -/

/-- What is logged about a build that failed. Faults of the source text were reported before. -/
def buildReport (f : Fault) : List Log.Entry :=
  if f.kind = .io then [⟨.error, f.message⟩] else []

/-- Builds an image. -/
def build (t : FileTree) (ending : FileTree.WriteEnd) (settings : Log.Settings) (source : String)
    (output : Option String) : Result :=
  match Build.run t ending source output with
  | ⟨.error f, tree, entries⟩ => { exit := 1, entries := entries ++ buildReport f, settings, tree }
  | ⟨.ok _, tree, entries⟩ => { exit := 0, entries, settings, tree }

/-- The program of an image file. -/
def loadFile (path : String) (content : Except String Bytes) : Except Fault Program :=
  match content with
  | .error reason => .error (.cause (.fileError path reason))
  | .ok image => Program.load image

/-- What is logged about an image that was loaded. -/
def loaded (path : String) (p : Program) : Log.Entry :=
  ⟨.debug, s!"loaded {path} ({p.length} lines, entry at line {p.entry + 1})"⟩

/-- What is logged about an image that could not be loaded or that failed. -/
def failure (path : String) (f : Fault) : Log.Entry :=
  ⟨.error, s!"{path}: {f.message}"⟩

/-- The entries of a run, which are made only if they are shown. -/
def traceEntries (settings : Log.Settings) (fuel : Nat) (m : Machine) (s : Stream) :
    List Log.Entry :=
  if settings.shows .debug then (Machine.trace Stream.console fuel m s).map (⟨.debug, ·⟩) else []

/-- Runs an image on an input. There is no result if the program takes more than `fuel` steps. -/
def runImage (t : FileTree) (fuel : Nat) (settings : Log.Settings) (s : Stream) (path : String) :
    Option Result :=
  match loadFile path ((t.read path).mapError PathError.message) with
  | .error f => some { exit := 1, entries := [failure path f], settings, tree := t }
  | .ok p =>
    let start := Machine.start p
    let entries := loaded path p :: traceEntries settings fuel start s
    match Machine.run Stream.console fuel start s with
    | .running _ _ => none
    | .finished (.error f) _ s =>
      some { exit := 1, output := s.output, entries := entries ++ [failure path f], settings,
             tree := t }
    | .finished (.ok ()) m s =>
      some { exit := 0, output := s.output, entries := entries ++ [⟨.debug, m.haltLine⟩], settings,
             tree := t }

/-! ## Command lines -/

/-- What a session starts from. -/
structure Start where
  /-- The name that the usage shows. -/
  program : String
  arguments : List String
  environment : Environment
  input : Bytes
  tree : FileTree
  /-- How writing an image ends. -/
  ending : FileTree.WriteEnd := .success

/-- The text that reports a mistake on the command line. -/
def mistakeText (program : String) (e : UsageError) : String :=
  s!"error: {e.message}\n\n{usage program}\n"

/-- Carries out a command line. -/
def run (fuel : Nat) (start : Start) : Option Result :=
  match Options.parse start.arguments start.environment with
  | .error e =>
    some { exit := 1, usageText := mistakeText start.program e, tree := start.tree }
  | .ok options =>
    let settings := options.logSettings
    match options.command with
    | .help => some { exit := 0, usageText := usage start.program ++ "\n", tree := start.tree }
    | .build source output => some (build start.tree start.ending settings source output)
    | .run image =>
      runImage start.tree fuel settings { input := cutLines start.input, prompt := options.prompt }
        image

end Session

end StackMachine
