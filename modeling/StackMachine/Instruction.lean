import StackMachine.Literal
import StackMachine.SymbolTable

/-!
# Bound instructions

An instruction is an opcode with its operand in executable form: integers as values, registers
and labels as handles of a symbol table.

* `Instruction.bind`: binds the operand text of an opcode. The text is checked first; then
  `BEGIN`, `END` and `LABEL` record their line in the table.
-/

namespace StackMachine

/-- An instruction with its operand bound. -/
inductive Instruction
  | begin
  | finish
  | push (value : Int64)
  | pop
  | pushRegister (id : RegisterId)
  | popRegister (id : RegisterId)
  | arithmetic (op : Arithmetic)
  | read
  | write
  | label (id : LabelId)
  | jump (id : LabelId)
  | branch (test : Comparison) (id : LabelId)
  | call (id : LabelId)
  | ret
  | blank
  deriving DecidableEq

namespace Instruction

/-- The opcode of a bound instruction. -/
def opcode : Instruction → Opcode
  | begin => .begin
  | finish => .finish
  | push _ => .push
  | pop => .pop
  | pushRegister _ => .pushRegister
  | popRegister _ => .popRegister
  | arithmetic op => .arithmetic op
  | read => .read
  | write => .write
  | label _ => .label
  | jump _ => .jump
  | branch test _ => .branch test
  | call _ => .call
  | ret => .ret
  | blank => .blank

/-- The label that an instruction refers to. -/
def label? : Instruction → Option LabelId
  | label id | jump id | branch _ id | call id => some id
  | _ => none

/-- The register that an instruction refers to. -/
def register? : Instruction → Option RegisterId
  | pushRegister id | popRegister id => some id
  | _ => none

/-! ## Binding operands -/

/-- Makes an instruction of a bound operand. -/
def ofOperand {α : Type} (make : α → Instruction) :
    Except Cause α × SymbolTable → Except Cause Instruction × SymbolTable
  | (.ok operand, t) => (.ok (make operand), t)
  | (.error c, t) => (.error c, t)

/-- An instruction without operand accepts the empty text only. -/
def bare (t : SymbolTable) (o : Opcode) (text : String) (i : Instruction) :
    Except Cause Instruction × SymbolTable :=
  if text = "" then (.ok i, t) else (.error (.unexpectedOperand o text), t)

/-- Binds a non-empty operand text, or reports that the operand is missing. -/
def withOperand (t : SymbolTable) (o : Opcode) (text : String)
    (bound : Except Cause Instruction × SymbolTable) : Except Cause Instruction × SymbolTable :=
  if text = "" then (.error (.missingOperand o), t) else bound

/-- Binds the operand text of an opcode by the opcode's shape. -/
def bindOperand (t : SymbolTable) (o : Opcode) (text : String) :
    Except Cause Instruction × SymbolTable :=
  match o with
  | .begin => bare t o text begin
  | .finish => bare t o text finish
  | .push => withOperand t o text (ofOperand push (integer text, t))
  | .pop => bare t o text pop
  | .pushRegister => withOperand t o text (ofOperand pushRegister (t.register text))
  | .popRegister => withOperand t o text (ofOperand popRegister (t.register text))
  | .arithmetic op => bare t o text (arithmetic op)
  | .read => bare t o text read
  | .write => bare t o text write
  | .label => withOperand t o text (ofOperand label (t.label text))
  | .jump => withOperand t o text (ofOperand jump (t.label text))
  | .branch test => withOperand t o text (ofOperand (branch test) (t.label text))
  | .call => withOperand t o text (ofOperand call (t.label text))
  | .ret => bare t o text ret
  | .blank => bare t o text blank

/-- Records the line of an instruction that may or must be unique. -/
def record (t : SymbolTable) (line : Nat) : Instruction → Except Cause Unit × SymbolTable
  | begin => t.markBegin line
  | finish => t.markEnd line
  | label id => t.defineLabel id line
  | _ => (.ok (), t)

/-- Binds an opcode and its operand text on a line, counted from 0. -/
def bind (t : SymbolTable) (o : Opcode) (text : String) (line : Nat) :
    Except Cause Instruction × SymbolTable :=
  match bindOperand t o text with
  | (.error c, t) => (.error c, t)
  | (.ok i, t) =>
    match record t line i with
    | (.error c, t) => (.error c, t)
    | (.ok (), t) => (.ok i, t)

end Instruction

end StackMachine
