import StackMachine.Proofs.Finishes
import StackMachine.Proofs.Lines
import StackMachine.Proofs.LogLines

/-!
# Reports of failing commands

A command that fails is reported once. What is wrong with a source text is reported where the text
is at hand, with the line it quotes; every other fault is reported by the command, which tells the
two apart by their class.

* **`Program.kind_of_assemble`**: the faults of a source text have other classes than those of
  files.
* `Build.Logs`, `Build.logs_run`: what a build logs by itself.
* `Session.Returns`: what the work of a command returns; `Session.Reports`: the text that reports
  its fault.
* **`Session.command_reports_once`**: the exit code and the shown errors of a command are decided by
  what its work returns.
-/

namespace StackMachine

/-! ## Faults of a source text -/

section Kinds

variable {source text : String} {earlier : List Record} {line : List Char} {r : Record} {k : Nat}
  {c : Cause} {f : Fault}

theorem SourceLine.kind_of_parse (h : parse text = .error c) : c.kind = .invalidArgument := by
  unfold parse ofWords at h
  split at h
  · cases h
  · split at h <;> cases h <;> rfl

theorem SourceLine.kind_of_resolve {l : SourceLine} (h : l.resolve = .error c) :
    c.kind = .invalidArgument := by
  unfold resolve at h
  split at h
  · cases h
  · cases h
    rfl

theorem kind_of_lineRecord (h : lineRecord line = .error c) : c.kind = .invalidArgument := by
  unfold lineRecord at h
  split at h
  · next hparse =>
    cases h
    exact SourceLine.kind_of_parse hparse
  · exact SourceLine.kind_of_resolve h

theorem Record.OperandFault.kind_eq (h : r.OperandFault c) : c.kind = .invalidArgument := by
  cases h <;> rfl

theorem Record.kind_duplicate (r : Record) (first : Nat) :
    (r.duplicate first).kind = .uniqueness := by
  unfold duplicate
  split <;> rfl

theorem LineFault.kind_eq (h : LineFault earlier r c) :
    c.kind = .invalidArgument ∨ c.kind = .uniqueness := by
  cases h with
  | operand _ h => exact Or.inl h.kind_eq
  | clash => exact Or.inr (r.kind_duplicate _)

theorem AtFault.kind_eq (h : AtFault source k c) :
    c.kind = .invalidArgument ∨ c.kind = .uniqueness := by
  cases h with
  | spelling h =>
    obtain ⟨line, _, hline⟩ := exists_line_of_getElem? h.1
    exact Or.inl (kind_of_lineRecord hline)
  | record _ _ h => exact h.kind_eq

/-- **What is wrong with a source text** is an operand, a name or something that must appear
once. -/
theorem Program.kind_of_assemble (h : assemble source = .error f) :
    f.kind = .invalidArgument ∨ f.kind = .uniqueness := by
  obtain rfl | ⟨k, c, hc, rfl⟩ := atFault_of_assemble h
  · exact Or.inr rfl
  · exact hc.kind_eq

/-- No fault of a source text is taken for one of files. -/
theorem Program.kind_ne_io_of_assemble (h : assemble source = .error f) : f.kind ≠ .io := by
  rcases kind_of_assemble h with hk | hk <;> simp [hk]

end Kinds

/-! ## Builds -/

namespace Build

open Log

theorem errors_warnings (path : String) (p : Program) : errors (warnings path p) = [] := by
  rw [errors_eq_nil_iff]
  intro e he
  rw [warnings, List.mem_append, List.mem_map] at he
  obtain he | ⟨label, _, rfl⟩ := he
  · split_ifs at he
    · obtain rfl := List.mem_singleton.1 he
      exact nofun
    · cases he
  · exact nofun

/-- How a build ends and what it logs by itself. -/
inductive Logs (t : FileTree) (source path : String) : Except Fault String → List Entry → Prop
  | unread {reason : String} : Logs t source path (.error (.cause (.fileError source reason))) []
  | unassembled {bytes : Bytes} {text : String} {f : Fault} : t.read source = .ok bytes →
      ofUtf8? bytes = some text → Program.assemble text = .error f →
      Logs t source path (.error f) [⟨.error, Diagnostic.ofFault source text f⟩]
  | unwritten {p : Program} {reason : String} :
      Logs t source path (.error (.cause (.fileError path reason))) (warnings source p)
  | written {p : Program} :
      Logs t source path (.ok path) (warnings source p ++ [success source p path])

theorem logs_run (t : FileTree) (ending : FileTree.WriteEnd) (source : String)
    (output : Option String) : Logs t source (output.getD (imagePath source))
      (run t ending source output).answer (run t ending source output).entries := by
  unfold run ofSource
  cases hread : t.read source with
  | error e => exact .unread
  | ok bytes =>
    dsimp only [Except.mapError]
    cases htext : ofUtf8? bytes with
    | none => exact .unread
    | some text =>
      dsimp only [ofText]
      cases hp : Program.assemble text with
      | error f => exact .unassembled hread htext hp
      | ok p =>
        dsimp only
        rcases t.write ending (output.getD (imagePath source)) p.image with ⟨_ | _, t'⟩
        · exact .unwritten
        · exact .written

end Build

/-! ## Commands -/

namespace Session

open Log

variable {start : Start} {options : Options} {t : FileTree} {fuel : Nat} {settings : Settings}
  {s s' : Stream} {path : String} {p : Program} {m : Machine} {r : Except Fault Unit} {f : Fault}
  {result : Result} {c : Command} {prompt : Option String}

/-- The program of an image in a file tree. -/
def loadFrom (t : FileTree) (image : String) : Except Fault Program :=
  loadFile image ((t.read image).mapError PathError.message)

/-- **What the work of a command returns**: that of building an image, or of loading one and running
it to its end. -/
inductive Returns (start : Start) (prompt : Option String) : Command → Except Fault Unit → Prop
  | build {source : String} {output : Option String} :
      Returns start prompt (.build source output)
        ((Build.run start.tree start.ending source output).answer.map fun _ => ())
  | unloaded {image : String} {f : Fault} : loadFrom start.tree image = .error f →
      Returns start prompt (.run image) (.error f)
  | ran {image : String} {p : Program} {r : Except Fault Unit} {asked : List Request} {m : Machine}
      {s : Stream} : loadFrom start.tree image = .ok p →
      Machine.Finishes Stream.console (.start p) { input := cutLines start.input, prompt } r asked m
        s → Returns start prompt (.run image) r

/-- **The text that reports a fault.** The fault of a source text is reported with the line it
quotes, that of an image with the path of the image. -/
inductive Reports (t : FileTree) : Command → Fault → String → Prop
  | text {source text : String} {output : Option String} {bytes : Bytes} {f : Fault} :
      t.read source = .ok bytes → ofUtf8? bytes = some text → Program.assemble text = .error f →
      Reports t (.build source output) f (Diagnostic.ofFault source text f)
  | file {source path reason : String} {output : Option String} :
      path = source ∨ path = output.getD (source ++ ".emu") →
      Reports t (.build source output) (.cause (.fileError path reason))
        s!"io error on {path}: {reason}"
  | image {image : String} {f : Fault} : Reports t (.run image) f s!"{image}: {f.message}"

/-- **What a session tells about a command** whose work returned `r`: by its exit code, and by the
lines that it writes to the log, one for each entry that is shown. -/
structure Tells (t : FileTree) (c : Command) (settings : Settings) (r : Except Fault Unit)
    (result : Result) : Prop where
  ok : r = .ok () → result.exit = 0 ∧ errors result.shown = []
  error : ∀ f, r = .error f → result.exit = 1 ∧
    ∃ message, Reports t c f message ∧ errors result.shown = [⟨.error, message⟩]
  text : ∀ colours time, result.errorText colours time =
    String.join (result.shown.map (settings.written colours time))
  shown : result.shown = result.entries.filter (settings.shows ·.level)

theorem tells_of_ok (hexit : result.exit = 0) (hlog : errors result.entries = [])
    (husage : result.usageText = "") (hs : result.settings = settings) :
    Tells t c settings (.ok ()) result where
  ok _ := ⟨hexit, result.errors_shown.trans hlog⟩
  error := nofun
  text colours time := by rw [result.errorText_eq, husage, hs, String.empty_append]
  shown := by rw [Result.shown, hs]

theorem tells_of_error {message : String} (hexit : result.exit = 1) (hm : Reports t c f message)
    (hlog : errors result.entries = [⟨.error, message⟩]) (husage : result.usageText = "")
    (hs : result.settings = settings) : Tells t c settings (.error f) result where
  ok := nofun
  error f' hf := by
    cases hf
    exact ⟨hexit, message, hm, result.errors_shown.trans hlog⟩
  text colours time := by rw [result.errorText_eq, husage, hs, String.empty_append]
  shown := by rw [Result.shown, hs]

/-! ## Building -/

theorem tells_build (t : FileTree) (ending : FileTree.WriteEnd) (settings : Settings)
    (source : String) (output : Option String) :
    Tells t (.build source output) settings
      ((Build.run t ending source output).answer.map fun _ => ())
      (build t ending settings source output) := by
  have h := Build.logs_run t ending source output
  unfold build
  generalize Build.run t ending source output = built at h ⊢
  obtain ⟨answer, tree, entries⟩ := built
  dsimp only at h
  cases h with
  | unread => exact tells_of_error rfl (.file (Or.inl rfl)) rfl rfl rfl
  | unassembled hread htext hf =>
    -- the build has reported the fault, and the command does not report it again
    have hreport : buildReport _ = [] := if_neg (Program.kind_ne_io_of_assemble hf)
    refine tells_of_error rfl (.text hread htext hf) ?_ rfl rfl
    dsimp only
    rw [hreport]
    rfl
  | @unwritten p =>
    have hw := Build.errors_warnings source p
    exact tells_of_error rfl (.file (Or.inr rfl)) (errors_append_of_nil hw) rfl rfl
  | @written p =>
    have hw := Build.errors_warnings source p
    exact tells_of_ok rfl (errors_append_of_nil hw) rfl rfl

/-! ## Running -/

theorem errors_traceEntries : errors (traceEntries settings fuel m s) = [] := by
  rw [errors_eq_nil_iff]
  intro e he
  unfold traceEntries at he
  split_ifs at he
  · obtain ⟨line, _, rfl⟩ := List.mem_map.1 he
    exact nofun
  · cases he

theorem tells_of_unloaded (hp : loadFrom t path = .error f) (fuel : Nat) (settings : Settings)
    (s : Stream) : ∃ result, runImage t fuel settings s path = some result ∧
      Tells t (.run path) settings (.error f) result := by
  unfold runImage
  rw [show loadFile path _ = _ from hp]
  exact ⟨_, rfl, tells_of_error rfl .image rfl rfl rfl⟩

theorem runImage_of_running (hp : loadFrom t path = .ok p)
    (h : Machine.run Stream.console fuel (.start p) s = .running m s') :
    runImage t fuel settings s path = none := by
  unfold runImage
  rw [show loadFile path _ = _ from hp]
  dsimp only
  rw [h]

theorem tells_of_finished (hp : loadFrom t path = .ok p) (settings : Settings)
    (h : Machine.run Stream.console fuel (.start p) s = .finished r m s') :
    ∃ result, runImage t fuel settings s path = some result ∧
      Tells t (.run path) settings r result := by
  unfold runImage
  rw [show loadFile path _ = _ from hp]
  dsimp only
  rw [h]
  have hlog : errors (loaded path p :: traceEntries settings fuel (.start p) s) = [] :=
    (@errors_append_of_nil [loaded path p] _ rfl).trans errors_traceEntries
  cases r with
  | error f =>
    exact ⟨_, rfl, tells_of_error rfl .image (errors_append_of_nil hlog) rfl rfl⟩
  | ok =>
    exact ⟨_, rfl, tells_of_ok rfl (errors_append_of_nil hlog) rfl rfl⟩

/-- The stream that a command reads and writes. -/
def streamOf (start : Start) (prompt : Option String) : Stream :=
  { input := cutLines start.input, prompt }

theorem tells_of_runImage
    (h : runImage start.tree fuel settings (streamOf start prompt) path = some result)
    (hr : Returns start prompt (.run path) r) : Tells start.tree (.run path) settings r result := by
  cases hr with
  | unloaded hp =>
    obtain ⟨result', hresult, ht⟩ := tells_of_unloaded hp fuel settings (streamOf start prompt)
    rw [h] at hresult
    cases hresult
    exact ht
  | ran hp hfin =>
    cases hrun : Machine.run Stream.console fuel (.start _) (streamOf start prompt) with
    | running m' s' =>
      rw [runImage_of_running hp hrun] at h
      cases h
    | finished r' m' s' =>
      obtain ⟨result', hresult, ht⟩ := tells_of_finished hp settings hrun
      rw [h] at hresult
      cases hresult
      -- whatever the number of steps, the machine ends in one way only
      obtain ⟨rfl, -⟩ := Machine.Finishes.unique _ ⟨fuel, hrun, rfl⟩ hfin
      exact ht

theorem exists_runImage_iff (settings : Settings) :
    (∃ fuel result, runImage start.tree fuel settings (streamOf start prompt) path = some result) ↔
      ∃ r, Returns start prompt (.run path) r := by
  constructor
  · rintro ⟨fuel, result, h⟩
    cases hp : loadFrom start.tree path with
    | error f => exact ⟨_, .unloaded hp⟩
    | ok p =>
      cases hrun : Machine.run Stream.console fuel (.start p) (streamOf start prompt) with
      | running m' s' =>
        rw [runImage_of_running hp hrun] at h
        cases h
      | finished r m' s' => exact ⟨r, .ran hp ⟨fuel, hrun, rfl⟩⟩
  · rintro ⟨r, hr⟩
    cases hr with
    | unloaded hp =>
      obtain ⟨result, h, _⟩ := tells_of_unloaded hp 0 settings (streamOf start prompt)
      exact ⟨0, result, h⟩
    | ran hp hfin =>
      obtain ⟨fuel, hrun, _⟩ := hfin
      obtain ⟨result, h, _⟩ := tells_of_finished hp settings hrun
      exact ⟨fuel, result, h⟩

/-! ## Command lines -/

/-- **A command that fails reports once.** A command other than a request for help comes to an end
exactly if its work does. What the work returned decides what the session tells: a fault makes it
fail and write exactly one error to the log, which reports the fault; without a fault it succeeds
and writes no error. This holds for every log level. No fault of a source text has the class by
which the command recognises the faults that it still has to report. -/
theorem command_reports_once
    (ho : Options.parse start.arguments start.environment = .ok options)
    (hc : options.command ≠ .help) :
    ((∃ fuel result, run fuel start = some result) ↔
      ∃ r, Returns start options.prompt options.command r) ∧
    (∀ fuel result r, run fuel start = some result →
      Returns start options.prompt options.command r →
      Tells start.tree options.command options.logSettings r result) ∧
    ∀ source f, Program.assemble source = .error f → f.kind ≠ .io := by
  refine ⟨?_, fun fuel result r h hr => ?_, fun source f => Program.kind_ne_io_of_assemble⟩
  · simp only [run, ho]
    cases hcommand : options.command with
    | build source output => exact ⟨fun _ => ⟨_, .build⟩, fun _ => ⟨0, _, rfl⟩⟩
    | run image => exact exists_runImage_iff options.logSettings
    | help => exact absurd hcommand hc
  · simp only [run, ho] at h
    cases hcommand : options.command with
    | build source output =>
      rw [hcommand] at h hr
      cases h
      cases hr
      exact tells_build ..
    | run image =>
      rw [hcommand] at h hr
      exact tells_of_runImage h hr
    | help => exact absurd hcommand hc

/-- A source without `BEGIN` is reported once, by the build itself, although only errors are logged.
An image that pops from the empty stack is reported once, behind all that a verbose run logs. -/
theorem command_reports_once_quiet_and_verbose :
    let tree : FileTree := ⟨[(["s.asm"], .file (utf8 "PUSH 1")), (["p.emu"], .file [0, 0, 3, 0])]⟩
    let quiet : Start := {
      program := "stackemu", arguments := ["-q", "build", "s.asm"], environment := ⟨[]⟩,
      input := [], tree }
    let verbose : Start := { quiet with arguments := ["-v", "run", "p.emu"] }
    let f : Fault := .runtime 2 (.cause .emptyStack)
    (∃ result message, run 0 quiet = some result ∧
      Returns quiet none (.build "s.asm" none) (.error (.cause .missingBegin)) ∧ result.exit = 1 ∧
      errors result.shown = [⟨.error, message⟩] ∧
      result.errorText false "now" = "now [ERROR] s.asm: program has no BEGIN command\n") ∧
    ∃ result message, run 2 verbose = some result ∧
      Returns verbose none (.run "p.emu") (.error f) ∧ result.entries.length = 4 ∧
      result.exit = 1 ∧ errors result.shown = [⟨.error, message⟩] := by
  intro tree quiet verbose f
  let p : Program := ⟨#[.begin, .pop], ⟨[⟨.begin, ""⟩, ⟨.pop, ""⟩]⟩, ⟨[], [], some 0, none⟩, 0⟩
  have hquiet : Options.parse quiet.arguments quiet.environment =
      .ok ⟨.build "s.asm" none, .error, true, none⟩ := by decide +kernel
  have hverbose : Options.parse verbose.arguments verbose.environment =
      .ok ⟨.run "p.emu", .debug, true, none⟩ := by decide +kernel
  have hbuilt : (Build.run tree .success "s.asm" none).answer = .error (.cause .missingBegin) := by
    decide +kernel
  have hp : loadFrom tree "p.emu" = .ok p := by decide +kernel
  have hb : Returns quiet none (.build "s.asm" none) (.error (.cause .missingBegin)) := by
    have h : Returns quiet none (.build "s.asm" none) _ := .build
    rwa [hbuilt] at h
  have hr : Returns verbose none (.run "p.emu") (.error f) := .ran hp ⟨2, rfl, rfl⟩
  have htext : (run 0 quiet).map (·.errorText false "now") =
      some "now [ERROR] s.asm: program has no BEGIN command\n" := by decide +kernel
  obtain ⟨b, hrunb, htextb⟩ := Option.map_eq_some_iff.1 htext
  have hrun : (run 2 verbose).map (·.entries.length) = some 4 := by decide +kernel
  obtain ⟨r, hrunr, hlength⟩ := Option.map_eq_some_iff.1 hrun
  obtain ⟨hexitb, mb, _, hshownb⟩ :=
    ((command_reports_once hquiet nofun).2.1 0 b _ hrunb hb).error _ rfl
  obtain ⟨hexitr, mr, _, hshownr⟩ :=
    ((command_reports_once hverbose nofun).2.1 2 r _ hrunr hr).error _ rfl
  exact ⟨⟨b, mb, hrunb, hb, hexitb, hshownb, htextb⟩, r, mr, hrunr, hr, hlength, hexitr, hshownr⟩

end Session

end StackMachine
