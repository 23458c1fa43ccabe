import StackMachine.Session

/-!
# What a session writes to the log

Of all that is logged, the entries are written that are shown, each one as a line. Errors are shown
whatever the settings ask for.

* `Log.Settings.written`: the line of an entry, with the spelling of its level.
* **`Log.Settings.render_eq`**: entries are written as such lines.
* `Log.errors`: the errors among some entries.
* **`Session.Result.errorText_eq`**: all that a session writes beside its output.
-/

namespace StackMachine

namespace Log

/-! ## Lines -/

/-- How lines name their level. -/
def Level.tag : Level → String
  | debug => "[DEBUG] "
  | info => "[INFO ] "
  | warn => "[WARN ] "
  | error => "[ERROR] "

/-- What a terminal with colours is sent in front of a line: cyan, plain, bold yellow, bold red. -/
def Level.front : Level → String
  | debug => "\x1b[0m\x1b[36m"
  | info => "\x1b[0m"
  | warn => "\x1b[0m\x1b[1m\x1b[33m"
  | error => "\x1b[0m\x1b[1m\x1b[31m"

/-- The line that is written for an entry. -/
def Settings.written (settings : Settings) (colours : Bool) (time : String) (e : Entry) : String :=
  (if colours then e.level.front else "") ++ (if settings.timestamps then time ++ " " else "") ++
    (if settings.tags then e.level.tag else "") ++ e.message ++ "\n" ++
    (if colours then "\x1b[0m" else "")

/-- The errors among some entries. -/
def errors (entries : List Entry) : List Entry :=
  entries.filter (·.level = .error)

section

variable {entries entries' : List Entry} {settings : Settings} {colours : Bool} {time : String}
  {e : Entry}

theorem Level.appearance_eq (level : Level) : level.appearance = level.front := by
  cases level <;> decide +kernel

theorem Level.column_name (level : Level) :
    "[" ++ Column.left 5 level.name ++ "] " = level.tag := by
  cases level <;> decide +kernel

/-- **An entry that is shown is written as its line**, any other one as nothing. -/
theorem Settings.render_eq : settings.render colours time e =
    if settings.shows e.level then settings.written colours time e else "" := by
  have hplain : plain = "\x1b[0m" := by decide +kernel
  cases hshows : settings.shows e.level with
  | false => simp [render, hshows]
  | true =>
    rw [render, line, hshows, e.level.column_name, e.level.appearance_eq, hplain, written]
    cases colours <;> simp [String.append_assoc]

theorem errors_append_of_nil (h : errors entries = []) :
    errors (entries ++ entries') = errors entries' := by
  rw [errors, List.filter_append, ← errors, h, List.nil_append, errors]

theorem errors_eq_nil_iff : errors entries = [] ↔ ∀ e ∈ entries, e.level ≠ .error := by
  simp [errors, List.filter_eq_nil_iff]

theorem Settings.shows_error (settings : Settings) : settings.shows .error = true := by
  unfold shows
  cases settings.level <;> rfl

theorem errors_filter_shows :
    errors (entries.filter (settings.shows ·.level)) = errors entries := by
  rw [errors, errors, List.filter_filter]
  refine List.filter_congr fun e _ => ?_
  by_cases h : e.level = .error
  · simp [h, settings.shows_error]
  · simp [h]

end

end Log

/-! ## Sessions -/

namespace Session

open Log

/-- The entries of a result that are shown. -/
def Result.shown (result : Result) : List Entry :=
  result.entries.filter (result.settings.shows ·.level)

theorem Result.errors_shown (result : Result) : errors result.shown = errors result.entries :=
  errors_filter_shows

/-- **Beside its usage, a session writes a line for each entry that is shown.** -/
theorem Result.errorText_eq (result : Result) (colours : Bool) (time : String) :
    result.errorText colours time =
      result.usageText ++
        String.join (result.shown.map (result.settings.written colours time)) := by
  unfold errorText shown
  congr 1
  induction result.entries with
  | nil => rfl
  | cons e entries ih =>
    rw [List.map_cons, String.join_cons, ih, List.filter_cons, Settings.render_eq]
    split
    · rw [List.map_cons, String.join_cons]
    · rw [String.empty_append]

end Session

end StackMachine
