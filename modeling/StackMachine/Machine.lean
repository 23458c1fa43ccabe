import StackMachine.Console
import StackMachine.Program
import StackMachine.Stack

/-!
# The machine

The machine executes a program on an operand stack, a stack of pending calls and the registers of
the program. It starts at `BEGIN` and halts at `END`, behind the last line, or at a line that
fails.

* `Machine.exec`: what one instruction does. An instruction either settles by itself or asks the
  console for one thing and goes on with the answer (`Action`).
* `Machine.step`: executes the instruction at the program counter on a console. A fault halts the
  machine and is tagged with its line.

Arithmetic is that of signed 64-bit integers and wraps around.
-/

namespace StackMachine

/-! ## Values -/

/-- The result of an operation on the second and the topmost value; division by zero has none. -/
def Arithmetic.apply? (second top : Int64) : Arithmetic → Option Int64
  | add => some (second + top)
  | sub => some (second - top)
  | mul => some (second * top)
  | div => if top = 0 then none else some (second / top)

/-- Whether a comparison holds between the topmost value and the second. -/
def Comparison.holds (top second : Int64) : Comparison → Bool
  | equal => top == second
  | notEqual => top != second
  | above => second < top
  | aboveOrEqual => second ≤ top
  | below => top < second
  | belowOrEqual => top ≤ second

/-- **What the tests compare**: the topmost value with the second, as signed integers. -/
theorem Comparison.holds_iff (top second : Int64) :
    (equal.holds top second ↔ top.toInt = second.toInt) ∧
    (notEqual.holds top second ↔ top.toInt ≠ second.toInt) ∧
    (above.holds top second ↔ second.toInt < top.toInt) ∧
    (aboveOrEqual.holds top second ↔ second.toInt ≤ top.toInt) ∧
    (below.holds top second ↔ top.toInt < second.toInt) ∧
    (belowOrEqual.holds top second ↔ top.toInt ≤ second.toInt) := by
  simp [holds, Int64.toInt_inj, Int64.lt_iff_toInt_lt, Int64.le_iff_toInt_le]

/-! ## States -/

/-- A machine in the middle of a run. -/
structure Machine where
  program : Program
  /-- The line of the next instruction, counted from 0. -/
  pc : Nat
  stack : Stack
  /-- The lines of the pending calls, the latest first. -/
  calls : List Nat
  halted : Bool
  /-- The number of instructions executed, modulo `2 ^ 64`. -/
  steps : UInt64
  deriving DecidableEq

/-- Where execution goes on. -/
inductive Next
  /-- At a line, counted from 0. -/
  | line (n : Nat)
  /-- Nowhere. -/
  | halt
  deriving DecidableEq, Repr

/-- How an instruction ended: where execution goes on, or a fault, and the state it leaves. -/
abbrev Outcome (μ : Type) := Except Fault Next × μ

/-- What executing an instruction comes to. -/
inductive Action (μ : Type)
  /-- It is done. -/
  | settle (outcome : Outcome μ)
  /-- It needs an integer from the console. -/
  | read (resume : Except Fault Int64 → Outcome μ)
  /-- It writes an integer to the console. -/
  | write (value : Int64) (resume : Except Fault Unit → Outcome μ)

/-- Completes an action on a console. -/
def Action.perform {μ σ : Type} (console : Console σ) (s : σ) : Action μ → Outcome μ × σ
  | settle outcome => (outcome, s)
  | read resume => let (answer, s) := console.read s; (resume answer, s)
  | write value resume => let (answer, s) := console.write value s; (resume answer, s)

namespace Machine

/-- The machine at the entry point of a program. -/
def start (program : Program) : Machine :=
  { program, pc := program.entry, stack := .empty, calls := [], halted := false, steps := 0 }

/-- The value of a register by name, if the program refers to it. -/
def registerValue? (m : Machine) (name : String) : Option Int64 :=
  m.program.symbols.registerValue? name

/-- The number of pending calls. -/
def callDepth (m : Machine) : Nat :=
  m.calls.length

/-! ## Instructions -/

/-- Goes on with the next line. -/
def advance (m : Machine) : Outcome Machine :=
  (.ok (.line (m.pc + 1)), m)

/-- Ends with a fault. -/
def fail (m : Machine) (c : Cause) : Outcome Machine :=
  (.error (.cause c), m)

/-- Goes on with a value on top of the stack. -/
def pushing (m : Machine) (value : Int64) : Outcome Machine :=
  advance { m with stack := m.stack.push value }

/-- Takes the topmost value and goes on with it. -/
def popping (m : Machine) (next : Int64 → Machine → Action Machine) : Action Machine :=
  match m.stack.pop? with
  | none => .settle (m.fail .emptyStack)
  | some (value, stack) => next value { m with stack }

/-- Takes the topmost and the second value and goes on with them. -/
def poppingTwo (m : Machine) (next : Int64 → Int64 → Machine → Outcome Machine) :
    Action Machine :=
  m.popping fun top m => m.popping fun second m => .settle (next top second m)

/-- Goes on at a label. -/
def jumping (m : Machine) (id : LabelId) : Outcome Machine :=
  match m.program.symbols.jumpTarget id with
  | .ok line => (.ok (.line line), m)
  | .error c => m.fail c

/-- Gives a register a new value. -/
def setRegister (m : Machine) (id : RegisterId) (value : Int64) : Machine :=
  { m with
    program := { m.program with symbols := m.program.symbols.writeRegister id value } }

/-- What an instruction does. -/
def exec (m : Machine) : Instruction → Action Machine
  | .begin | .blank | .label _ => .settle m.advance
  | .finish => .settle (.ok .halt, m)
  | .push value => .settle (m.pushing value)
  | .pop => m.popping fun _ m => .settle m.advance
  | .pushRegister id => .settle (m.pushing (m.program.symbols.readRegister id))
  | .popRegister id => m.popping fun value m => .settle (m.setRegister id value).advance
  | .arithmetic op => m.poppingTwo fun top second m =>
    match op.apply? second top with
    | some value => m.pushing value
    | none => m.fail .divisionByZero
  | .read => .read fun
    | .ok value => m.pushing value
    | .error f => (.error f, m)
  | .write => m.popping fun value m => .write value fun
    | .ok () => m.advance
    | .error f => (.error f, m)
  | .jump id => .settle (m.jumping id)
  | .branch test id => m.poppingTwo fun top second m =>
    let m := { m with stack := m.stack.push top }
    if test.holds top second then m.jumping id else m.advance
  | .call id => .settle <|
    match m.program.symbols.jumpTarget id with
    | .ok line => (.ok (.line line), { m with calls := m.pc :: m.calls })
    | .error c => m.fail c
  | .ret => .settle <|
    match m.calls with
    | [] => m.fail .returnWithoutCall
    | line :: calls => (.ok (.line (line + 1)), { m with calls })

/-! ## Steps -/

/-- The machine after an instruction ended, and whether it runs on. -/
def settle : Outcome Machine → Except Fault Bool × Machine
  | (.ok (.line n), m) =>
    let halted := decide (m.program.length ≤ n)
    (.ok (!halted), { m with pc := n, halted })
  | (.ok .halt, m) => (.ok false, { m with halted := true })
  | (.error f, m) => (.error (f.atRuntimeLine (m.pc + 1)), { m with halted := true })

/-- The instruction that the next step executes, if there is one. -/
def next? (m : Machine) : Option Instruction :=
  if m.halted then none else m.program.get? m.pc

/-- What the next step comes to, if there is an instruction to execute. -/
def action? (m : Machine) : Option (Action Machine) :=
  m.next?.map (exec { m with steps := m.steps + 1 })

/-- Executes one instruction: `true` if the machine runs on, `false` if it halted. -/
def step {σ : Type} (console : Console σ) (m : Machine) (s : σ) :
    (Except Fault Bool × Machine) × σ :=
  match m.action? with
  | none => ((.ok false, { m with halted := true }), s)
  | some action =>
    let (outcome, s) := action.perform console s
    (settle outcome, s)

/-! ## A halted machine -/

@[simp] theorem next?_of_halted {m : Machine} (h : m.halted = true) : m.next? = none := by
  simp [next?, h]

/-- **A halted machine stays as it is and leaves the console alone.** -/
theorem step_of_halted {σ : Type} (console : Console σ) {m : Machine} (s : σ)
    (h : m.halted = true) : step console m s = ((.ok false, m), s) := by
  cases m
  cases h
  rfl

/-- A step after which the machine does not run on leaves it halted. -/
theorem halted_settle {o : Outcome Machine} (h : (settle o).1 ≠ .ok true) :
    (settle o).2.halted = true := by
  obtain ⟨_ | _ | _, m⟩ := o <;> simp_all [settle]

end Machine

end StackMachine
