import StackMachine.Instruction
import StackMachine.Listing

/-!
# Programs

A program is a listing whose operands are bound. Symbols are not part of an image: loading one
binds its operands anew and so finds the same registers, labels and lines.

* `Program.ofListing`: binds every record in order, on a fresh symbol table. The first record that
  cannot be bound decides the fault, which is tagged with its line; a listing without `BEGIN` is no
  program.
* `Program.load`: the program of an image.
-/

namespace StackMachine

/-- A program that the machine can run. -/
structure Program where
  instructions : Array Instruction
  /-- The records that the instructions were bound from. -/
  listing : Listing
  symbols : SymbolTable
  /-- The line of `BEGIN`, counted from 0. -/
  entry : Nat
  deriving DecidableEq

/-- Binds records on the lines from `line` on. -/
def bindFrom (t : SymbolTable) (line : Nat) :
    List Record → Except Fault (List Instruction × SymbolTable)
  | [] => .ok ([], t)
  | r :: rs =>
    match Instruction.bind t r.opcode r.operand line with
    | (.error c, _) => .error ((Fault.cause c).atLine (line + 1))
    | (.ok i, t) =>
      match bindFrom t (line + 1) rs with
      | .error f => .error f
      | .ok (is, t) => .ok (i :: is, t)

namespace Program

/-- Binds the records of a listing. -/
def ofListing (p : Listing) : Except Fault Program :=
  match bindFrom .empty 0 p.records with
  | .error f => .error f
  | .ok (instructions, symbols) =>
    match symbols.begin with
    | none => .error (.cause .missingBegin)
    | some entry => .ok { instructions := instructions.toArray, listing := p, symbols, entry }

/-- Reads and binds an image. -/
def load (image : Bytes) : Except Fault Program :=
  match Listing.ofImage image with
  | .error c => .error (.cause c)
  | .ok p => ofListing p

/-- The image of a program. -/
def image (p : Program) : Bytes :=
  p.listing.image

/-- The number of lines. -/
def length (p : Program) : Nat :=
  p.instructions.size

/-- The instruction on a line, counted from 0. -/
def get? (p : Program) (line : Nat) : Option Instruction :=
  p.instructions[line]?

/-- The line of `END`, if the program has one. -/
def finish? (p : Program) : Option Nat :=
  p.symbols.finish

/-- The operand text on a line; empty outside the program. -/
def operandText (p : Program) (line : Nat) : String :=
  match p.listing.records[line]? with
  | some r => r.operand
  | none => ""

end Program

/-! ## Records that are bound -/

theorem bindFrom_cons_eq_ok_iff {t t' : SymbolTable} {line : Nat} {r : Record} {rs : List Record}
    {is : List Instruction} : bindFrom t line (r :: rs) = .ok (is, t') ↔
      ∃ i t₁ is₁, Instruction.bind t r.opcode r.operand line = (.ok i, t₁) ∧
        bindFrom t₁ (line + 1) rs = .ok (is₁, t') ∧ is = i :: is₁ := by
  constructor
  · intro h
    unfold bindFrom at h
    split at h
    · cases h
    · next i t₁ hbind =>
      split at h
      · cases h
      · next is₁ t₂ hrest =>
        cases h
        exact ⟨i, t₁, is₁, hbind, hrest, rfl⟩
  · rintro ⟨i, t₁, is₁, hbind, hrest, rfl⟩
    simp only [bindFrom, hbind, hrest]

theorem length_of_bindFrom {t t' : SymbolTable} {line : Nat} {rs : List Record}
    {is : List Instruction} (h : bindFrom t line rs = .ok (is, t')) : is.length = rs.length := by
  induction rs generalizing t line is with
  | nil => cases h; rfl
  | cons r rs ih =>
    obtain ⟨_, _, _, _, hrest, rfl⟩ := bindFrom_cons_eq_ok_iff.1 h
    simp [ih hrest]

namespace Program

theorem ofListing_eq_ok_iff {l : Listing} {p : Program} : ofListing l = .ok p ↔
    ∃ is t entry, bindFrom .empty 0 l.records = .ok (is, t) ∧ t.begin = some entry ∧
      p = ⟨is.toArray, l, t, entry⟩ := by
  constructor
  · intro h
    unfold ofListing at h
    split at h
    · cases h
    · next is t hbind =>
      split at h
      · cases h
      · next entry hbegin =>
        cases h
        exact ⟨is, t, entry, hbind, hbegin, rfl⟩
  · rintro ⟨is, t, entry, hbind, hbegin, rfl⟩
    simp only [ofListing, hbind, hbegin]

/-- **A program has as many instructions as its listing has records.** -/
theorem length_of_ofListing {l : Listing} {p : Program} (h : ofListing l = .ok p) :
    p.length = l.records.length := by
  obtain ⟨is, t, entry, hbind, _, rfl⟩ := ofListing_eq_ok_iff.1 h
  simp [length, length_of_bindFrom hbind]

end Program

end StackMachine
