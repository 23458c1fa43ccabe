import StackMachine.Fault
import StackMachine.Text.Decimal

/-!
# Integer literals

Operands of `PUSH` and words of the console input are decimal machine integers.
-/

namespace StackMachine

/-- The machine integer that a word denotes. -/
def integer (word : String) : Except Cause Int64 :=
  match Decimal.read? word with
  | some value => .ok value
  | none => .error (.invalidInteger word)

end StackMachine
