import StackMachine.Codec

/-!
# Faults

Everything that can go wrong while a program is assembled, loaded or run.

* `Cause`: what went wrong; `Cause.message` is its text, `Cause.kind` its broad class.
* `Fault`: a cause, tagged with the line it arose on by the stage that noticed it. **A fault is
  tagged once**: `Fault.atLine` and `Fault.atRuntimeLine` leave a tagged fault alone.
* `Fault.root`: the cause behind all tags.
-/

namespace StackMachine

/-! ## Causes -/

/-- The text that reports a decoding failure. -/
def DecodeFailure.message : DecodeFailure → String
  | unexpectedEnd => "unexpected end of input"
  | unknownOpcode byte => "unknown opcode " ++ hexByte byte
  | invalidUtf8 => "operand text is not valid utf-8"
  | trailingBytes count => s!"{count} trailing bytes after value"
where
  /-- Two hexadecimal digits behind the mark of a hexadecimal number. -/
  hexByte (byte : UInt8) : String :=
    "0x" ++ String.ofList [Nat.digitChar (byte.toNat / 16), Nat.digitChar (byte.toNat % 16)]

/-- What went wrong. -/
inductive Cause
  | invalidInteger (token : String)
  | invalidRegister (token : String)
  | invalidLabel (token : String)
  | unexpectedOperand (opcode : Opcode) (token : String)
  | missingOperand (opcode : Opcode)
  | tooManyArguments (token : String)
  | unknownCommand (name : String)
  /-- A jump leads to a label that no line defines. -/
  | unresolvedLabel (label : String)
  /-- A second entry point; `first` is the line of the first one, from 1. -/
  | duplicateBegin (first : Nat)
  | duplicateEnd (first : Nat)
  | duplicateLabel (label : String) (first : Nat)
  | missingBegin
  | emptyStack
  | returnWithoutCall
  | divisionByZero
  | inputExhausted
  | consoleError (reason : String)
  | fileError (path reason : String)
  /-- A record of an image starts with a byte that stands for no opcode. -/
  | invalidOpcode (byte : UInt8) (offset : Nat)
  /-- A record of an image could not be decoded for another reason. -/
  | undecodable (offset : Nat) (reason : DecodeFailure)
  deriving DecidableEq, Repr

/-- The broad classes of causes. -/
inductive FaultKind
  /-- An operand or a name that does not fit. -/
  | invalidArgument
  /-- Something that must appear once appears twice or never. -/
  | uniqueness
  | emptyAccess
  | arithmetic
  | io
  | decoding
  deriving DecidableEq, Repr

namespace Cause

/-- The class of a cause. -/
def kind : Cause → FaultKind
  | invalidInteger _ | invalidRegister _ | invalidLabel _ | unexpectedOperand _ _
  | missingOperand _ | tooManyArguments _ | unknownCommand _ | unresolvedLabel _ =>
    .invalidArgument
  | duplicateBegin _ | duplicateEnd _ | duplicateLabel _ _ | missingBegin => .uniqueness
  | emptyStack | returnWithoutCall => .emptyAccess
  | divisionByZero => .arithmetic
  | inputExhausted | consoleError _ | fileError _ _ => .io
  | invalidOpcode _ _ | undecodable _ _ => .decoding

/-- The text that reports a cause. -/
def message : Cause → String
  | invalidInteger token => s!"invalid integer \"{token}\""
  | invalidRegister token => s!"incorrect register name \"{token}\""
  | invalidLabel token => s!"incorrect label name \"{token}\""
  | unexpectedOperand opcode token =>
    s!"{opcode.mnemonic} command does not take any arguments, got \"{token}\""
  | missingOperand opcode => s!"{opcode.mnemonic} command requires an argument"
  | tooManyArguments token => s!"too many arguments: unexpected \"{token}\""
  | unknownCommand name => s!"unknown command \"{name}\""
  | unresolvedLabel label => s!"can not find label \"{label}\" to jump"
  | duplicateBegin first => s!"BEGIN command must appear only once (first on line {first})"
  | duplicateEnd first => s!"END command must appear only once (first on line {first})"
  | duplicateLabel label first => s!"label \"{label}\" is already defined on line {first}"
  | missingBegin => "program has no BEGIN command"
  | emptyStack => "operand stack is empty"
  | returnWithoutCall => "return without call"
  | divisionByZero => "division by zero"
  | inputExhausted => "input exhausted while reading an integer"
  | consoleError reason => s!"console error: {reason}"
  | fileError path reason => s!"io error on {path}: {reason}"
  | invalidOpcode byte offset =>
    s!"invalid opcode {DecodeFailure.message.hexByte byte} at offset {offset}"
  | undecodable offset reason => s!"decoding error at offset {offset}: {reason.message}"

end Cause

/-! ## Faults and their line tags -/

/-- A cause behind any number of line tags; lines of tags count from 1. -/
inductive Fault
  | cause (c : Cause)
  /-- Found on a line while a program was put together. -/
  | assembly (line : Nat) (source : Fault)
  /-- Raised by a line while a program ran. -/
  | runtime (line : Nat) (source : Fault)
  deriving DecidableEq, Repr

namespace Fault

/-- The line of the outermost tag. -/
def line? : Fault → Option Nat
  | cause _ => none
  | assembly line _ | runtime line _ => some line

/-- Tags a fault found while a program is put together, unless it is tagged already. -/
def atLine (line : Nat) (f : Fault) : Fault :=
  if f.line?.isSome then f else assembly line f

/-- Tags a fault raised by a running program, unless it is tagged already. -/
def atRuntimeLine (line : Nat) (f : Fault) : Fault :=
  if f.line?.isSome then f else runtime line f

/-- The cause behind all tags. -/
def root : Fault → Cause
  | cause c => c
  | assembly _ source | runtime _ source => source.root

/-- The class of the cause behind all tags. -/
def kind : Fault → FaultKind
  | cause c => c.kind
  | assembly _ source | runtime _ source => source.kind

/-- The text that reports a fault: its lines from the outside in, then its cause. -/
def message : Fault → String
  | cause c => c.message
  | assembly line source | runtime line source => s!"line {line}: {source.message}"

@[simp] theorem atLine_cause (line : Nat) (c : Cause) :
    (cause c).atLine line = assembly line (cause c) := rfl

@[simp] theorem atRuntimeLine_cause (line : Nat) (c : Cause) :
    (cause c).atRuntimeLine line = runtime line (cause c) := rfl

theorem atLine_of_isSome {f : Fault} (h : f.line?.isSome) (line : Nat) : f.atLine line = f :=
  if_pos h

theorem atRuntimeLine_of_isSome {f : Fault} (h : f.line?.isSome) (line : Nat) :
    f.atRuntimeLine line = f :=
  if_pos h

@[simp] theorem root_atLine (line : Nat) (f : Fault) : (f.atLine line).root = f.root := by
  unfold atLine
  split <;> rfl

@[simp] theorem root_atRuntimeLine (line : Nat) (f : Fault) :
    (f.atRuntimeLine line).root = f.root := by
  unfold atRuntimeLine
  split <;> rfl

end Fault

end StackMachine
