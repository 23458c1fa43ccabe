import StackMachine.Source
import StackMachine.Text.Column

/-!
# Diagnostics

The report of a program that could not be assembled: what is wrong, where, and the source line in
question.
-/

namespace StackMachine.Diagnostic

/-- The excerpt that shows a source line, counted from 1; nothing if there is no such line. -/
def excerpt (source : String) (line : Nat) : String :=
  match (lines source.toList)[line - 1]? with
  | none => ""
  | some text =>
    let shown := String.ofList (text.reverse.dropWhile (· == '\r')).reverse
    s!"  |\n{Column.right 4 (toString line)} | {shown}\n  |\n"

/-- The report on one line of a file. -/
def atLine (file source : String) (line : Nat) (message : String) : String :=
  s!"error: {message}\n --> {file}:{line}\n" ++ excerpt source line

/-- The report of a fault found while a file was assembled. -/
def ofFault (file source : String) : Fault → String
  | .assembly line cause => atLine file source line cause.message
  | f => s!"{file}: {f.message}"

end StackMachine.Diagnostic
