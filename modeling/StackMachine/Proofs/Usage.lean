import Mathlib.Data.List.Forall2
import StackMachine.Options

/-!
# The command line as a grammar

A command line is a sequence of pieces: options, some with a value, and positional arguments. It is
read up to the first request for help or the first mistake. What it asks for depends on a few facts
about its pieces and not on the order of options and positional arguments among each other.

* `Piece`, `Piece.Written`: the pieces and how they are written; `Stop.At`: what ends the reading.
* `Reads`: a command line as its pieces and what ends them; `exists_reads`.
* `Summary`: what counts of the pieces; `Asks`: the command that they ask for.
* `arguments_of_reads`: reading comes to the summary of the pieces.
* **`parse_follows_grammar`**: the options of a command line are those of the grammar.
-/

namespace StackMachine.Options

/-! ## Pieces -/

/-- A piece of a command line. -/
inductive Piece
  | level (level : Log.Level)
  | noTimestamp
  | output (path : String)
  | prompt (text : String)
  | positional (text : String)
  deriving DecidableEq

/-- No option: the argument does not start with a dash, or is one. -/
def IsPositional (argument : String) : Prop :=
  argument = "-" ∨ argument.toList.head? ≠ some '-'

instance (argument : String) : Decidable (IsPositional argument) :=
  inferInstanceAs (Decidable (_ ∨ _))

/-- The arguments that have a meaning as options. -/
def flags : List String :=
  ["-h", "--help", "-v", "--verbose", "-q", "--quiet", "--no-timestamp", "-o", "--output",
    "--prompt"]

/-- The arguments that a piece is written in. A value is the next argument, whatever it looks
like. -/
inductive Piece.Written : Piece → List String → Prop
  | verbose {flag : String} : flag ∈ ["-v", "--verbose"] → Written (.level .debug) [flag]
  | quiet {flag : String} : flag ∈ ["-q", "--quiet"] → Written (.level .error) [flag]
  | noTimestamp : Written .noTimestamp ["--no-timestamp"]
  | output {flag : String} (path : String) : flag ∈ ["-o", "--output"] →
      Written (.output path) [flag, path]
  | prompt (text : String) : Written (.prompt text) ["--prompt", text]
  | positional {text : String} : IsPositional text → Written (.positional text) [text]

namespace Piece

def level? : Piece → Option Log.Level
  | level l => some l
  | _ => none

def output? : Piece → Option String
  | output path => some path
  | _ => none

def prompt? : Piece → Option String
  | prompt text => some text
  | _ => none

def positional? : Piece → Option String
  | positional text => some text
  | _ => none

def isOption (piece : Piece) : Bool :=
  piece.positional?.isNone

end Piece

/-- What ends the reading of a command line. -/
inductive Stop
  | complete
  | help
  | missingValue (flag : String)
  | unexpected (argument : String)

/-- What ends the reading in front of some arguments, behind so many positional ones: there is no
argument left, or the next one is no piece. -/
inductive Stop.At (count : Nat) : List String → Stop → Prop
  | complete : At count [] .complete
  | help {flag : String} {rest : List String} : flag ∈ ["-h", "--help"] →
      At count (flag :: rest) .help
  | missingValue {flag : String} : flag ∈ ["-o", "--output", "--prompt"] →
      At count [flag] (.missingValue flag)
  | unknown {argument : String} {rest : List String} : ¬ IsPositional argument →
      argument ∉ flags → At count (argument :: rest) (.unexpected argument)
  | third {argument : String} {rest : List String} : IsPositional argument → 2 ≤ count →
      At count (argument :: rest) (.unexpected argument)

/-! ## What counts of the pieces -/

/-- What counts of the pieces of a command line. -/
structure Summary where
  /-- The last level that was asked for. -/
  level : Option Log.Level
  timestamps : Bool
  /-- The last output. -/
  output : Option String
  /-- The last prompt. -/
  prompt : Option String
  positionals : List String
  deriving DecidableEq

/-- The summary of the pieces. -/
def Summary.of (pieces : List Piece) : Summary where
  level := (pieces.filterMap Piece.level?).getLast?
  timestamps := decide (Piece.noTimestamp ∉ pieces)
  output := (pieces.filterMap Piece.output?).getLast?
  prompt := (pieces.filterMap Piece.prompt?).getLast?
  positionals := pieces.filterMap Piece.positional?

/-- The settings that a summary leads to, where it does not say otherwise with the level and the
prompt of the environment. -/
def Summary.settings (summary : Summary) (least : Log.Level) (prompt : Option String)
    (command : Command) : Options where
  command
  level := summary.level.getD least
  timestamps := summary.timestamps
  prompt := summary.prompt.or prompt

/-- The command that a summary asks for, or why it asks for none. -/
inductive Asks (summary : Summary) : Except UsageError Command → Prop
  | nothing : summary.positionals = [] → Asks summary (.error .missingCommand)
  | unknown {name : String} {rest : List String} : summary.positionals = name :: rest →
      name ≠ "build" → name ≠ "run" → Asks summary (.error (.unknownCommand name))
  | promptOfBuild {rest : List String} {text : String} : summary.positionals = "build" :: rest →
      summary.prompt = some text → Asks summary (.error (.flagNotAllowed "--prompt" "run"))
  | buildNothing : summary.positionals = ["build"] → summary.prompt = none →
      Asks summary (.error (.missingPath "build"))
  | build {source : String} : summary.positionals = ["build", source] → summary.prompt = none →
      Asks summary (.ok (.build source summary.output))
  | outputOfRun {rest : List String} {path : String} : summary.positionals = "run" :: rest →
      summary.output = some path → Asks summary (.error (.flagNotAllowed "--output" "build"))
  | runNothing : summary.positionals = ["run"] → summary.output = none →
      Asks summary (.error (.missingPath "run"))
  | run {image : String} : summary.positionals = ["run", image] → summary.output = none →
      Asks summary (.ok (.run image))

/-! ## Command lines -/

/-- A command line is written in some pieces, with at most two positional arguments, and in front
of the rest reading ends. -/
def Reads (arguments : List String) (pieces : List Piece) (stop : Stop) : Prop :=
  ∃ written rest, List.Forall₂ Piece.Written pieces written ∧
    arguments = written.flatten ++ rest ∧ (Summary.of pieces).positionals.length ≤ 2 ∧
    stop.At (Summary.of pieces).positionals.length rest

/-- The level that the environment asks for; `info` if it does not. -/
inductive EnvironmentLevel (env : Environment) : Log.Level → Prop
  | unset : env.get? levelVariable = none → EnvironmentLevel env .info
  | named {value : String} {level : Log.Level} : env.get? levelVariable = some value →
      Log.Level.ofName? value = some level → EnvironmentLevel env level

/-- What a command line comes to in an environment. -/
inductive Answers (env : Environment) (arguments : List String) :
    Except UsageError Options → Prop
  | level {value : String} : env.get? levelVariable = some value →
      Log.Level.ofName? value = none →
      Answers env arguments (.error (.invalidLogLevel levelVariable value))
  | help {least : Log.Level} {pieces : List Piece} : EnvironmentLevel env least →
      Reads arguments pieces .help →
      Answers env arguments
        (.ok ((Summary.of pieces).settings least (env.get? promptVariable) .help))
  | missingValue {least : Log.Level} {pieces : List Piece} {flag : String} :
      EnvironmentLevel env least → Reads arguments pieces (.missingValue flag) →
      Answers env arguments (.error (.missingValue flag))
  | unexpected {least : Log.Level} {pieces : List Piece} {argument : String} :
      EnvironmentLevel env least → Reads arguments pieces (.unexpected argument) →
      Answers env arguments (.error (.unexpectedArgument argument))
  | complete {least : Log.Level} {pieces : List Piece} {answer : Except UsageError Command} :
      EnvironmentLevel env least → Reads arguments pieces .complete →
      Asks (Summary.of pieces) answer →
      Answers env arguments
        (answer.map ((Summary.of pieces).settings least (env.get? promptVariable)))

/-! ## Classes of arguments -/

variable {argument : String} {arguments arguments' rest words : List String} {piece : Piece}
  {before pieces pieces' : List Piece} {stop : Stop} {env : Environment} {least : Log.Level}
  {prompt : Option String} {summary : Summary}

theorem notMem_flags (h : IsPositional argument) : argument ∉ flags := by
  have hall : ∀ flag ∈ flags, ¬ IsPositional flag := by decide
  exact fun hflag => hall argument hflag h

theorem ofArgument?_of_notMem (h : argument ∉ flags) : Flag.ofArgument? argument = none := by
  unfold Flag.ofArgument?
  split <;> first | rfl | exact absurd (by decide) h

theorem looksLikeFlag_eq_true_iff : looksLikeFlag argument = true ↔ ¬ IsPositional argument := by
  have hdash : argument = "-" ↔ argument.toList = ['-'] := by
    rw [← String.toList_inj]
    rfl
  unfold looksLikeFlag IsPositional
  rw [hdash]
  split
  · next h => simp [h]
  · next h =>
    cases hlist : argument.toList with
    | nil => simp
    | cons c rest =>
      cases rest with
      | nil => simp
      | cons d rest =>
        have hc : c ≠ '-' := by
          rintro rfl
          exact h d rest hlist
        simp [hc]

theorem looksLikeFlag_eq_false (h : IsPositional argument) : looksLikeFlag argument = false :=
  Bool.eq_false_iff.2 fun hdash => looksLikeFlag_eq_true_iff.1 hdash h

/-! ## Summaries -/

namespace Summary

/-- The summary with one more piece. -/
def add (summary : Summary) : Piece → Summary
  | .level level => { summary with level := some level }
  | .noTimestamp => { summary with timestamps := false }
  | .output path => { summary with output := some path }
  | .prompt text => { summary with prompt := some text }
  | .positional text => { summary with positionals := summary.positionals ++ [text] }

theorem of_concat (before : List Piece) (piece : Piece) :
    of (before ++ [piece]) = (of before).add piece := by
  cases piece <;>
    simp [of, add, Piece.level?, Piece.output?, Piece.prompt?, Piece.positional?]

theorem positionals_append (before pieces : List Piece) : (of (before ++ pieces)).positionals =
    (of before).positionals ++ (of pieces).positionals :=
  List.filterMap_append

/-- What has been read when this is the summary of it. -/
def scan (summary : Summary) (least : Log.Level) (prompt : Option String) : Scan where
  level := summary.level.getD least
  timestamps := summary.timestamps
  prompt := summary.prompt.or prompt
  promptGiven := summary.prompt.isSome
  output := summary.output
  name := summary.positionals[0]?
  path := summary.positionals[1]?

theorem withCommand_scan (summary : Summary) (command : Command) :
    (summary.scan least prompt).withCommand command = summary.settings least prompt command :=
  rfl

end Summary

/-! ## Reading -/

theorem positional_scan {text : String} (h : IsPositional text)
    (hcount : summary.positionals.length < 2) :
    (summary.scan least prompt).positional text =
      .ok ((summary.add (.positional text)).scan least prompt) := by
  have hflag : looksLikeFlag text = false := looksLikeFlag_eq_false h
  obtain ⟨level, timestamps, output, prompt', _ | ⟨name, _ | ⟨path, rest⟩⟩⟩ := summary
  · simp [Scan.positional, hflag, Summary.scan, Summary.add]
  · simp [Scan.positional, hflag, Summary.scan, Summary.add]
  · simp only [List.length_cons] at hcount
    omega

theorem positional_scan_of_full {text : String} (h : IsPositional text)
    (hcount : 2 ≤ summary.positionals.length) :
    (summary.scan least prompt).positional text = .error (.unexpectedArgument text) := by
  have hflag : looksLikeFlag text = false := looksLikeFlag_eq_false h
  obtain ⟨level, timestamps, output, prompt', _ | ⟨name, _ | ⟨path, rest⟩⟩⟩ := summary
  · simp at hcount
  · simp at hcount
  · simp [Scan.positional, hflag, Summary.scan]

theorem arguments_of_notMem_flags (scan : Scan) (h : argument ∉ flags) (rest : List String) :
    scan.arguments (argument :: rest) =
      (scan.positional argument).bind fun scan => scan.arguments rest := by
  rw [Scan.arguments.eq_def]
  simp only [ofArgument?_of_notMem h]
  cases scan.positional argument <;> rfl

/-- **A piece is read in front of anything.** -/
theorem arguments_of_written (h : piece.Written words)
    (hcount : (summary.add piece).positionals.length ≤ 2) (rest : List String) :
    (summary.scan least prompt).arguments (words ++ rest) =
      ((summary.add piece).scan least prompt).arguments rest := by
  cases h with
  | verbose hflag | quiet hflag | output path hflag =>
    simp only [List.mem_cons, List.not_mem_nil, or_false] at hflag
    obtain rfl | rfl := hflag <;> rfl
  | noTimestamp | prompt text => rfl
  | @positional text htext =>
    have hflag : text ∉ flags := notMem_flags htext
    have hlt : summary.positionals.length < 2 := by
      simpa [Summary.add, Nat.lt_succ_iff] using hcount
    rw [List.singleton_append, arguments_of_notMem_flags _ hflag, positional_scan htext hlt]
    rfl

/-- How reading ends. -/
def Stop.reading (scan : Scan) : Stop → Except UsageError Reading
  | complete => .ok (.complete scan)
  | help => .ok (.help scan)
  | missingValue flag => .error (.missingValue flag)
  | unexpected argument => .error (.unexpectedArgument argument)

/-- **Reading ends in front of what is no piece.** -/
theorem arguments_of_stop (h : stop.At summary.positionals.length rest) :
    (summary.scan least prompt).arguments rest = stop.reading (summary.scan least prompt) := by
  cases h with
  | complete => rfl
  | help hflag | missingValue hflag =>
    simp only [List.mem_cons, List.not_mem_nil, or_false] at hflag
    obtain rfl | rfl | rfl := hflag <;> rfl
  | @unknown argument rest hdash hflag =>
    have hpositional : (summary.scan least prompt).positional argument =
        .error (.unexpectedArgument argument) := by
      rw [Scan.positional, if_pos (looksLikeFlag_eq_true_iff.2 hdash)]
    rw [arguments_of_notMem_flags _ hflag, hpositional]
    rfl
  | @third argument rest htext hcount =>
    have hflag : argument ∉ flags := notMem_flags htext
    rw [arguments_of_notMem_flags _ hflag, positional_scan_of_full htext hcount]
    rfl

/-- Pieces are read one after another. -/
theorem arguments_of_forall₂ {written : List (List String)}
    (h : List.Forall₂ Piece.Written pieces written) (before : List Piece)
    (hcount : (Summary.of (before ++ pieces)).positionals.length ≤ 2) (rest : List String) :
    ((Summary.of before).scan least prompt).arguments (written.flatten ++ rest) =
      ((Summary.of (before ++ pieces)).scan least prompt).arguments rest := by
  induction h generalizing before with
  | nil =>
    rw [List.append_nil]
    rfl
  | @cons piece words pieces written hpiece _ ih =>
    rw [List.append_cons] at hcount ⊢
    have hle : ((Summary.of before).add piece).positionals.length ≤ 2 := by
      rw [← Summary.of_concat]
      rw [Summary.positionals_append, List.length_append] at hcount
      omega
    rw [List.flatten_cons, List.append_assoc, arguments_of_written hpiece hle,
      ← Summary.of_concat, ih _ hcount]

theorem Reads.length_positionals_le (h : Reads arguments pieces stop) :
    (Summary.of pieces).positionals.length ≤ 2 := by
  obtain ⟨_, _, _, _, hcount, _⟩ := h
  exact hcount

/-- **Reading comes to the summary of the pieces** and to what ends them. -/
theorem arguments_of_reads (h : Reads arguments pieces stop) :
    Scan.arguments { level := least, prompt } arguments =
      stop.reading ((Summary.of pieces).scan least prompt) := by
  obtain ⟨written, rest, hwritten, rfl, hcount, hstop⟩ := h
  have hempty : ({ level := least, prompt } : Scan) = (Summary.of []).scan least prompt := rfl
  rw [hempty, arguments_of_forall₂ hwritten [] hcount]
  exact arguments_of_stop hstop

/-! ## Every command line can be read -/

theorem mem_flags_iff : argument ∈ flags ↔ argument ∈ ["-h", "--help"] ∨
    argument ∈ ["-v", "--verbose"] ∨ argument ∈ ["-q", "--quiet"] ∨
      argument = "--no-timestamp" ∨ argument ∈ ["-o", "--output"] ∨ argument = "--prompt" := by
  simp [flags, or_assoc]

/-- In front of any arguments there is a piece, or reading ends. -/
theorem exists_piece_or_stop (count : Nat) (arguments : List String) :
    (∃ stop : Stop, stop.At count arguments) ∨ ∃ piece words rest, Piece.Written piece words ∧
      words ≠ [] ∧ arguments = words ++ rest ∧ (piece.positional? ≠ none → count < 2) := by
  obtain _ | ⟨argument, rest⟩ := arguments
  · exact .inl ⟨_, .complete⟩
  by_cases hflag : argument ∈ flags
  · obtain h | h | h | rfl | h | rfl := mem_flags_iff.1 hflag
    · exact .inl ⟨_, .help h⟩
    · exact .inr ⟨_, [argument], rest, .verbose h, by simp, rfl, (absurd rfl ·)⟩
    · exact .inr ⟨_, [argument], rest, .quiet h, by simp, rfl, (absurd rfl ·)⟩
    · exact .inr ⟨_, _, rest, .noTimestamp, by simp, rfl, (absurd rfl ·)⟩
    · obtain _ | ⟨path, rest⟩ := rest
      · have hvalue : argument ∈ ["-o", "--output", "--prompt"] := by
          simp only [List.mem_cons] at h ⊢
          tauto
        exact .inl ⟨_, .missingValue hvalue⟩
      · exact .inr ⟨_, [argument, path], rest, .output path h, by simp, rfl, (absurd rfl ·)⟩
    · obtain _ | ⟨text, rest⟩ := rest
      · exact .inl ⟨_, .missingValue (by simp)⟩
      · exact .inr ⟨_, _, rest, .prompt text, by simp, rfl, (absurd rfl ·)⟩
  · by_cases htext : IsPositional argument
    · obtain hlt | hle := Nat.lt_or_ge count 2
      · exact .inr ⟨_, _, rest, .positional htext, by simp, rfl, fun _ => hlt⟩
      · exact .inl ⟨_, .third htext hle⟩
    · exact .inl ⟨_, .unknown htext hflag⟩

theorem exists_reads_behind (before : List Piece)
    (hbefore : (Summary.of before).positionals.length ≤ 2) (arguments : List String) :
    ∃ pieces stop written rest, List.Forall₂ Piece.Written pieces written ∧
      arguments = written.flatten ++ rest ∧
      (Summary.of (before ++ pieces)).positionals.length ≤ 2 ∧
      Stop.At (Summary.of (before ++ pieces)).positionals.length rest stop := by
  induction hn : arguments.length using Nat.strongRecOn generalizing before arguments with
  | _ n ih =>
    obtain ⟨stop, hstop⟩ | ⟨piece, words, rest, hpiece, hne, rfl, hroom⟩ :=
      exists_piece_or_stop (Summary.of before).positionals.length arguments
    · have hnil : before ++ [] = before := List.append_nil before
      exact ⟨[], stop, [], arguments, .nil, rfl, hnil.symm ▸ hbefore, hnil.symm ▸ hstop⟩
    · have hlt : rest.length < n := by
        have hwords := List.length_pos_iff.2 hne
        rw [← hn, List.length_append]
        omega
      have hcount : (Summary.of (before ++ [piece])).positionals.length ≤ 2 := by
        rw [Summary.of_concat]
        cases piece with
        | positional text => simpa [Summary.add, Nat.lt_succ_iff] using hroom nofun
        | _ => exact hbefore
      obtain ⟨pieces, stop, written, rest', hpieces, rfl, hle, hstop⟩ :=
        ih _ hlt (before ++ [piece]) hcount rest rfl
      rw [← List.append_cons] at hle hstop
      exact ⟨piece :: pieces, stop, words :: written, rest', .cons hpiece hpieces,
        by rw [List.flatten_cons, List.append_assoc], hle, hstop⟩

/-- **Every command line is read as pieces** up to where reading ends. -/
theorem exists_reads (arguments : List String) : ∃ pieces stop, Reads arguments pieces stop := by
  obtain ⟨pieces, stop, written, rest, h⟩ := exists_reads_behind [] (Nat.zero_le 2) arguments
  exact ⟨pieces, stop, written, rest, h⟩

/-! ## Commands -/

theorem command_of_asks {answer : Except UsageError Command} (h : Asks summary answer) :
    (summary.scan least prompt).command = answer := by
  cases h with
  | nothing h => simp [Scan.command, Summary.scan, h]
  | unknown h hbuild hrun =>
    unfold Scan.command
    simp only [Summary.scan, h, List.getElem?_cons_zero]
  | promptOfBuild h hprompt => simp [Scan.command, Summary.scan, h, hprompt]
  | buildNothing h hprompt => simp [Scan.command, Summary.scan, h, hprompt]
  | build h hprompt => simp [Scan.command, Summary.scan, h, hprompt]
  | outputOfRun h houtput => simp [Scan.command, Summary.scan, h, houtput]
  | runNothing h houtput => simp [Scan.command, Summary.scan, h, houtput]
  | run h houtput => simp [Scan.command, Summary.scan, h, houtput]

/-- **Every summary asks for a command**, or says why it does not. -/
theorem exists_asks (hcount : summary.positionals.length ≤ 2) : ∃ answer, Asks summary answer := by
  obtain ⟨level, timestamps, output, prompt, _ | ⟨name, rest⟩⟩ := summary
  · exact ⟨_, .nothing rfl⟩
  have hrest : rest.length ≤ 1 := Nat.le_of_succ_le_succ hcount
  by_cases hbuild : name = "build"
  · subst hbuild
    obtain _ | text := prompt
    · obtain _ | ⟨source, _ | ⟨_, _⟩⟩ := rest
      · exact ⟨_, .buildNothing rfl rfl⟩
      · exact ⟨_, .build rfl rfl⟩
      · simp at hrest
    · exact ⟨_, .promptOfBuild rfl rfl⟩
  by_cases hrun : name = "run"
  · subst hrun
    obtain _ | path := output
    · obtain _ | ⟨image, _ | ⟨_, _⟩⟩ := rest
      · exact ⟨_, .runNothing rfl rfl⟩
      · exact ⟨_, .run rfl rfl⟩
      · simp at hrest
    · exact ⟨_, .outputOfRun rfl rfl⟩
  · exact ⟨_, .unknown rfl hbuild hrun⟩

/-! ## Options -/

theorem environmentLevel_eq_ok (h : EnvironmentLevel env least) :
    environmentLevel env = .ok least := by
  unfold environmentLevel
  cases h with
  | unset h => simp only [h]
  | named h hname => simp only [h, hname]

theorem environmentLevel_cases (env : Environment) : (∃ least, EnvironmentLevel env least) ∨
    ∃ value, env.get? levelVariable = some value ∧ Log.Level.ofName? value = none := by
  cases hvalue : env.get? levelVariable with
  | none => exact .inl ⟨_, .unset hvalue⟩
  | some value =>
    cases hname : Log.Level.ofName? value with
    | none => exact .inr ⟨value, rfl, hname⟩
    | some level => exact .inl ⟨level, .named hvalue hname⟩

theorem parse_of_answers {answer : Except UsageError Options} (h : Answers env arguments answer) :
    parse arguments env = answer := by
  cases h with
  | level h hname => simp only [parse, environmentLevel, h, hname]
  | help hlevel h | missingValue hlevel h | unexpected hlevel h =>
    simp only [parse, environmentLevel_eq_ok hlevel, arguments_of_reads h, Stop.reading,
      Summary.withCommand_scan]
  | @complete least pieces answer hlevel h hasks =>
    simp only [parse, environmentLevel_eq_ok hlevel, arguments_of_reads h, Stop.reading,
      command_of_asks hasks]
    cases answer <;> rfl

/-- **Every command line comes to something.** -/
theorem exists_answers (env : Environment) (arguments : List String) :
    ∃ answer, Answers env arguments answer := by
  obtain ⟨least, hlevel⟩ | ⟨value, hvalue, hname⟩ := environmentLevel_cases env
  · obtain ⟨pieces, stop, h⟩ := exists_reads arguments
    cases stop with
    | complete =>
      obtain ⟨answer, hasks⟩ := exists_asks h.length_positionals_le
      exact ⟨_, .complete hlevel h hasks⟩
    | help => exact ⟨_, .help hlevel h⟩
    | missingValue flag => exact ⟨_, .missingValue hlevel h⟩
    | unexpected argument => exact ⟨_, .unexpected hlevel h⟩
  · exact ⟨_, .level hvalue hname⟩

/-- **The summary decides** what a command line comes to that is read to its end. -/
theorem parse_eq_of_summary_eq (h : Reads arguments pieces .complete)
    (h' : Reads arguments' pieces' .complete) (hsummary : Summary.of pieces = Summary.of pieces') :
    parse arguments env = parse arguments' env := by
  obtain ⟨least, hlevel⟩ | ⟨value, hvalue, hname⟩ := environmentLevel_cases env
  · simp only [parse, environmentLevel_eq_ok hlevel, arguments_of_reads h, arguments_of_reads h',
      hsummary]
  · simp only [parse, environmentLevel, hvalue, hname]

/-- What only options have can be read off them. -/
theorem filterMap_filter_isOption {α : Type} {f : Piece → Option α}
    (hf : ∀ text, f (.positional text) = none) (pieces : List Piece) :
    (pieces.filter Piece.isOption).filterMap f = pieces.filterMap f := by
  rw [List.filterMap_filter]
  refine List.filterMap_congr fun piece _ => ?_
  cases piece with
  | positional text => exact (hf text).symm
  | _ => rfl

/-- **The order of options and positional arguments among each other does not count.** -/
theorem Summary.of_eq_of_interleaved
    (hoptions : pieces.filter Piece.isOption = pieces'.filter Piece.isOption)
    (hpositionals : pieces.filterMap Piece.positional? = pieces'.filterMap Piece.positional?) :
    Summary.of pieces = Summary.of pieces' := by
  have hread {α : Type} (f : Piece → Option α) (hf : ∀ text, f (.positional text) = none) :
      pieces.filterMap f = pieces'.filterMap f := by
    rw [← filterMap_filter_isOption hf pieces, hoptions, filterMap_filter_isOption hf]
  have hmem : Piece.noTimestamp ∈ pieces ↔ Piece.noTimestamp ∈ pieces' := by
    have hiff (pieces : List Piece) :
        Piece.noTimestamp ∈ pieces ↔ Piece.noTimestamp ∈ pieces.filter Piece.isOption := by
      simp [List.mem_filter, Piece.isOption, Piece.positional?]
    rw [hiff, hoptions, ← hiff]
  simp only [Summary.of, hread Piece.level? fun _ => rfl, hread Piece.output? fun _ => rfl,
    hread Piece.prompt? fun _ => rfl, hmem, hpositionals]

/-- **The options of a command line are those of the grammar**: the level of the environment comes
first, then what ends the reading, then what the pieces ask for. Of a command line that is read to
its end only the summary of its pieces counts, so options and positional arguments may be
interleaved in any way. -/
theorem parse_follows_grammar (env : Environment) (arguments : List String) :
    (∀ answer, parse arguments env = answer ↔ Answers env arguments answer) ∧
      ∀ arguments' pieces pieces',
        Reads arguments pieces .complete → Reads arguments' pieces' .complete →
        (Summary.of pieces = Summary.of pieces' → parse arguments env = parse arguments' env) ∧
          (pieces.filter Piece.isOption = pieces'.filter Piece.isOption →
            pieces.filterMap Piece.positional? = pieces'.filterMap Piece.positional? →
            parse arguments env = parse arguments' env) := by
  refine ⟨fun answer => ⟨?_, parse_of_answers⟩, fun arguments' pieces pieces' h h' =>
    ⟨parse_eq_of_summary_eq h h', fun hoptions hpositionals =>
      parse_eq_of_summary_eq h h' (Summary.of_eq_of_interleaved hoptions hpositionals)⟩⟩
  rintro rfl
  obtain ⟨answer, h⟩ := exists_answers env arguments
  rwa [parse_of_answers h]

/-- Two ways to interleave the same options and positional arguments; the output looks like a
request for help. -/
theorem parse_follows_grammar_interleaved :
    let env : Environment := ⟨[(promptVariable, "> ")]⟩
    let arguments := ["-q", "build", "-o", "-h", "a", "-v"]
    let arguments' := ["build", "-q", "a", "-o", "-h", "-v"]
    let pieces := [Piece.level .error, .positional "build", .output "-h", .positional "a",
      .level .debug]
    let pieces' := [Piece.positional "build", .level .error, .positional "a", .output "-h",
      .level .debug]
    let options : Options := ⟨.build "a" (some "-h"), .debug, true, some "> "⟩
    Reads arguments pieces .complete ∧ Reads arguments' pieces' .complete ∧
      Answers env arguments (.ok options) ∧ parse arguments env = .ok options ∧
      parse arguments' env = .ok options := by
  intro env arguments arguments' pieces pieces' options
  have hquiet : Piece.Written (.level .error) ["-q"] := .quiet (by decide)
  have hverbose : Piece.Written (.level .debug) ["-v"] := .verbose (by decide)
  have houtput : Piece.Written (.output "-h") ["-o", "-h"] := .output "-h" (by decide)
  have hbuild : Piece.Written (.positional "build") ["build"] := .positional (by decide)
  have hpath : Piece.Written (.positional "a") ["a"] := .positional (by decide)
  have h : Reads arguments pieces .complete :=
    ⟨[["-q"], ["build"], ["-o", "-h"], ["a"], ["-v"]], [],
      .cons hquiet (.cons hbuild (.cons houtput (.cons hpath (.cons hverbose .nil)))), rfl,
      by decide, .complete⟩
  have h' : Reads arguments' pieces' .complete :=
    ⟨[["build"], ["-q"], ["a"], ["-o", "-h"], ["-v"]], [],
      .cons hbuild (.cons hquiet (.cons hpath (.cons houtput (.cons hverbose .nil)))), rfl,
      by decide, .complete⟩
  obtain ⟨hiff, hfree⟩ := parse_follows_grammar env arguments
  have hparse : parse arguments env = .ok options := by decide +kernel
  have hsame : parse arguments env = parse arguments' env :=
    (hfree arguments' pieces pieces' h h').2 (by decide) (by decide)
  exact ⟨h, h', (hiff _).1 hparse, hparse, hsame ▸ hparse⟩

end StackMachine.Options
