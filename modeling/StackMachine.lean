import StackMachine.Build
import StackMachine.Codec
import StackMachine.Console
import StackMachine.Console.Stream
import StackMachine.Derive.BinaryCodec
import StackMachine.Derive.Display
import StackMachine.Derive.Item
import StackMachine.Derive.Placeholder
import StackMachine.Derive.Token
import StackMachine.Diagnostic
import StackMachine.Environment
import StackMachine.Fault
import StackMachine.FileTree
import StackMachine.Instruction
import StackMachine.Listing
import StackMachine.Literal
import StackMachine.Log
import StackMachine.Machine
import StackMachine.Machine.Run
import StackMachine.Main
import StackMachine.Opcode
import StackMachine.Options
import StackMachine.Program
import StackMachine.Proofs.Acceptance
import StackMachine.Proofs.Binding
import StackMachine.Proofs.BlankLines
import StackMachine.Proofs.Bound
import StackMachine.Proofs.Brackets
import StackMachine.Proofs.Building
import StackMachine.Proofs.ByName
import StackMachine.Proofs.Calls
import StackMachine.Proofs.Faults
import StackMachine.Proofs.Finishes
import StackMachine.Proofs.Grammar
import StackMachine.Proofs.Image
import StackMachine.Proofs.Layout
import StackMachine.Proofs.Lines
import StackMachine.Proofs.Operands
import StackMachine.Proofs.Rendering
import StackMachine.Proofs.Runs
import StackMachine.Proofs.Safety
import StackMachine.Proofs.Symbols
import StackMachine.Session
import StackMachine.Source
import StackMachine.Stack
import StackMachine.SymbolTable
import StackMachine.Text.Blank
import StackMachine.Text.Column
import StackMachine.Text.Decimal
import StackMachine.Text.Utf8
import StackMachine.Text.Words
import StackMachine.Proofs.Failing
import StackMachine.Proofs.Stepping
import StackMachine.Proofs.UnreadInput
import StackMachine.Proofs.LogLines
import StackMachine.Proofs.Reports
import StackMachine.Proofs.Arithmetic
import StackMachine.Proofs.Frame
import StackMachine.Proofs.Renaming
import StackMachine.Proofs.Reading
import StackMachine.Proofs.ReadingBack
import StackMachine.Proofs.LabelIndex
import StackMachine.Proofs.Operations
import StackMachine.Proofs.Restarting
import StackMachine.Proofs.Usage
import StackMachine.Proofs.FormatText
import StackMachine.Proofs.Placeholders
import StackMachine.Proofs.Interpolation
import StackMachine.Proofs.Spelling
import StackMachine.Proofs.CodecBodies
import StackMachine.Proofs.FieldCodecs
import StackMachine.Proofs.Annotations
import StackMachine.Proofs.Hygiene
import StackMachine.Proofs.Tagging
import StackMachine.Proofs.TableChanges
import StackMachine.Proofs.History
import StackMachine.Proofs.Consumption
import StackMachine.Proofs.Sinks
