/-!
# Opcodes

The instruction set of the stack machine: for every opcode its byte in a program image, its
mnemonic in source text and the shape of the operand it takes.

* `Opcode.all`: every opcode, in table order.
* `Opcode.ofByte?`, `Opcode.ofMnemonic?`: look an opcode up; unknown bytes and names have none.
* `Opcode.ofByte?_eq_some_iff`, `Opcode.ofMnemonic?_eq_some_iff`: **the look-ups invert `byte` and
  `mnemonic`**.
-/

namespace StackMachine

/-! ## The instruction set -/

/-- What an opcode expects as its operand. -/
inductive OperandShape
  /-- No operand: the operand text is empty. -/
  | none
  | integer
  | register
  | label
  deriving DecidableEq, Repr

/-- The four operations on the two topmost values. -/
inductive Arithmetic
  | add
  | sub
  | mul
  | div
  deriving DecidableEq, Repr

/-- How a conditional jump compares the topmost value with the one below it. -/
inductive Comparison
  | equal
  | notEqual
  | above
  | aboveOrEqual
  | below
  | belowOrEqual
  deriving DecidableEq, Repr

/-- An instruction without its operand. -/
inductive Opcode
  /-- The entry point of a program. -/
  | begin
  /-- Stops execution. -/
  | finish
  /-- Pushes an integer. -/
  | push
  /-- Drops the topmost value. -/
  | pop
  /-- Pushes the value of a register. -/
  | pushRegister
  /-- Pops the topmost value into a register. -/
  | popRegister
  /-- Replaces the two topmost values by the result of an operation. -/
  | arithmetic (op : Arithmetic)
  /-- Reads an integer from the console and pushes it. -/
  | read
  /-- Pops the topmost value and writes it to the console. -/
  | write
  /-- Gives its line a name. -/
  | label
  /-- Continues at a label. -/
  | jump
  /-- Drops the second value and continues at a label if the comparison holds. -/
  | branch (test : Comparison)
  /-- Remembers its line and continues at a label. -/
  | call
  /-- Continues behind the line of the latest pending call. -/
  | ret
  /-- An empty source line. -/
  | blank
  deriving DecidableEq, Repr

namespace Opcode

/-- Every opcode, in table order. -/
def all : List Opcode :=
  [begin, finish, push, pop, pushRegister, popRegister,
    arithmetic .add, arithmetic .sub, arithmetic .mul, arithmetic .div, read, write,
    label, jump, branch .equal, branch .notEqual, branch .above, branch .aboveOrEqual,
    branch .below, branch .belowOrEqual, call, ret, blank]

/-- The byte that stands for an opcode in a program image. -/
def byte : Opcode → UInt8
  | begin => 0x00
  | finish => 0x01
  | push => 0x02
  | pop => 0x03
  | pushRegister => 0x04
  | popRegister => 0x05
  | arithmetic .add => 0x10
  | arithmetic .sub => 0x11
  | arithmetic .mul => 0x12
  | arithmetic .div => 0x13
  | read => 0x20
  | write => 0x21
  | label => 0x30
  | jump => 0x31
  | branch .equal => 0x32
  | branch .notEqual => 0x33
  | branch .above => 0x34
  | branch .aboveOrEqual => 0x35
  | branch .below => 0x36
  | branch .belowOrEqual => 0x37
  | call => 0x38
  | ret => 0x39
  | blank => 0x3f

/-- The upper-case name of an opcode in source text. -/
def mnemonic : Opcode → String
  | begin => "BEGIN"
  | finish => "END"
  | push => "PUSH"
  | pop => "POP"
  | pushRegister => "PUSHR"
  | popRegister => "POPR"
  | arithmetic .add => "ADD"
  | arithmetic .sub => "SUB"
  | arithmetic .mul => "MUL"
  | arithmetic .div => "DIV"
  | read => "IN"
  | write => "OUT"
  | label => "LABEL"
  | jump => "JMP"
  | branch .equal => "JEQ"
  | branch .notEqual => "JNE"
  | branch .above => "JA"
  | branch .aboveOrEqual => "JAE"
  | branch .below => "JB"
  | branch .belowOrEqual => "JBE"
  | call => "CALL"
  | ret => "RET"
  | blank => "BLANK"

/-- The operand an opcode takes. -/
def shape : Opcode → OperandShape
  | push => .integer
  | pushRegister | popRegister => .register
  | label | jump | branch _ | call => .label
  | _ => .none

/-- The opcode that a byte stands for. -/
def ofByte? (b : UInt8) : Option Opcode :=
  all.find? (·.byte == b)

/-- The opcode with the given mnemonic, in upper case as in the table. -/
def ofMnemonic? (name : String) : Option Opcode :=
  all.find? (·.mnemonic == name)

/-! ## The look-ups are inverse to the table -/

theorem mem_all (o : Opcode) : o ∈ all := by
  cases o with
  | arithmetic op => cases op <;> decide
  | branch test => cases test <;> decide
  | _ => decide

theorem ofByte?_byte (o : Opcode) : ofByte? o.byte = some o := by
  cases o with
  | arithmetic op => cases op <;> decide
  | branch test => cases test <;> decide
  | _ => decide

theorem ofMnemonic?_mnemonic (o : Opcode) : ofMnemonic? o.mnemonic = some o := by
  cases o with
  | arithmetic op => cases op <;> decide
  | branch test => cases test <;> decide
  | _ => decide

/-- **A byte is looked up as `o` exactly when it is the byte of `o`.** -/
theorem ofByte?_eq_some_iff {b : UInt8} {o : Opcode} : ofByte? b = some o ↔ o.byte = b :=
  ⟨fun h => by simpa using List.find?_some h, fun h => h ▸ ofByte?_byte o⟩

/-- **A name is looked up as `o` exactly when it is the mnemonic of `o`.** -/
theorem ofMnemonic?_eq_some_iff {name : String} {o : Opcode} :
    ofMnemonic? name = some o ↔ o.mnemonic = name :=
  ⟨fun h => by simpa using List.find?_some h, fun h => h ▸ ofMnemonic?_mnemonic o⟩

end Opcode

end StackMachine
