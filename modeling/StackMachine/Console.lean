import StackMachine.Fault

/-!
# Consoles

The machine reads and writes integers only through a console. A console keeps a state of its own
and may fail in any way at any time.
-/

namespace StackMachine

/-- A console with states `σ`. -/
structure Console (σ : Type) where
  /-- Reads the next integer. -/
  read : σ → Except Fault Int64 × σ
  /-- Writes an integer. -/
  write : Int64 → σ → Except Fault Unit × σ

end StackMachine
