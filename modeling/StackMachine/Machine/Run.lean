import StackMachine.Machine
import StackMachine.Text.Column

/-!
# Runs

Repeated steps on a console.

* `Machine.after`: so many steps.
* `Machine.run`: steps until the machine halts or fails, at most a given number of them.
* `Machine.traceLine?`, `Machine.trace`: what a verbose run reports before each instruction.
-/

namespace StackMachine.Machine

variable {σ : Type} (console : Console σ)

/-! ## Running -/

/-- The machine and the console after `n` steps. -/
def after (n : Nat) (m : Machine) (s : σ) : Machine × σ :=
  match n with
  | 0 => (m, s)
  | n + 1 =>
    let ((_, m), s) := step console m s
    after n m s

/-- How far a run came. -/
inductive Progress (σ : Type)
  /-- The machine halted, in order or with a fault. -/
  | finished (result : Except Fault Unit) (m : Machine) (s : σ)
  /-- The machine runs on. -/
  | running (m : Machine) (s : σ)

/-- Executes instructions until the machine halts or fails, but takes at most `fuel` steps. -/
def run (fuel : Nat) (m : Machine) (s : σ) : Progress σ :=
  match fuel with
  | 0 => .running m s
  | fuel + 1 =>
    match step console m s with
    | ((.error f, m), s) => .finished (.error f) m s
    | ((.ok false, m), s) => .finished (.ok ()) m s
    | ((.ok true, m), s) => run fuel m s

/-! ## Reports -/

/-- The values of a stack, from bottom to top. -/
def showStack (s : Stack) : String :=
  "[" ++ ", ".intercalate (s.toList.map Decimal.write) ++ "]"

/-- The report on the instruction that the next step executes. -/
def traceLine? (m : Machine) : Option String :=
  m.next?.map fun i =>
    Column.right 4 (toString (m.pc + 1)) ++ " | " ++ Column.left 5 i.opcode.mnemonic ++ " " ++
      Column.left 8 (m.program.operandText m.pc) ++ " stack=" ++ showStack m.stack

/-- The report on a machine that halted in order. -/
def haltLine (m : Machine) : String :=
  s!"halted at line {m.pc + 1} after {m.steps.toNat} instructions"

/-- The reports of a run of at most `fuel` steps, one per instruction that is executed. -/
def trace (fuel : Nat) (m : Machine) (s : σ) : List String :=
  match fuel with
  | 0 => []
  | fuel + 1 =>
    match step console m s with
    | ((.ok true, m'), s') => m.traceLine?.toList ++ trace fuel m' s'
    | _ => m.traceLine?.toList

end StackMachine.Machine
