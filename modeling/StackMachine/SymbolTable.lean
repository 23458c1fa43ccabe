import StackMachine.Fault

/-!
# The symbol table

The registers and labels that one program refers to, and the lines of its `BEGIN` and `END`.
A name gets its entry when it is first looked up; from then on the look-up yields the same handle,
which is the position of the entry. A register starts with the value `0`, a label without a line.

* `SymbolTable.register`, `SymbolTable.label`: look a name up, adding it on first use.
* `SymbolTable.defineLabel`, `SymbolTable.markBegin`, `SymbolTable.markEnd`: record a line that
  can be recorded only once.
* `SymbolTable.jumpTarget`: the line a jump leads to.

An operation that can fail yields its answer together with the table it leaves behind.
-/

namespace StackMachine

/-! ## Names -/

/-- The registers of the machine. -/
def registerNames : List String :=
  ["ax", "bx", "cx", "dx", "ex"]

/-- A label name is a letter followed by letters and digits, all of them ASCII. -/
def isLabelName (name : String) : Bool :=
  match name.toList with
  | [] => false
  | c :: rest => c.isAlpha && rest.all Char.isAlphanum

/-! ## Entries and handles -/

/-- A handle of a register: its position in the table. -/
structure RegisterId where
  index : Nat
  deriving DecidableEq, Repr

/-- A handle of a label: its position in the table. -/
structure LabelId where
  index : Nat
  deriving DecidableEq, Repr

structure Register where
  name : String
  value : Int64
  deriving DecidableEq

structure Label where
  name : String
  /-- The line that defines the label, once it is known. -/
  target : Option Nat
  deriving DecidableEq, Repr

/-- The symbols of one program; lines count from 0. -/
structure SymbolTable where
  registers : List Register := []
  labels : List Label := []
  begin : Option Nat := none
  finish : Option Nat := none
  deriving DecidableEq

namespace SymbolTable

/-- The table without any entry. -/
def empty : SymbolTable := {}

/-- Forgets every entry. -/
def reset (_ : SymbolTable) : SymbolTable := empty

/-! ## Registers -/

/-- The handle of a register, if it was looked up before. -/
def registerId? (t : SymbolTable) (name : String) : Option RegisterId :=
  (t.registers.findIdx? (·.name == name)).map RegisterId.mk

/-- The handle of a register, which is added with the value `0` on first use. -/
def register (t : SymbolTable) (name : String) : Except Cause RegisterId × SymbolTable :=
  if name ∈ registerNames then
    match t.registerId? name with
    | some id => (.ok id, t)
    | none => (.ok ⟨t.registers.length⟩, { t with registers := t.registers ++ [⟨name, 0⟩] })
  else (.error (.invalidRegister name), t)

/-- The handle belongs to an entry of the table. -/
def hasRegister (t : SymbolTable) (id : RegisterId) : Bool :=
  id.index < t.registers.length

/-- The value of a register; `0` for a handle without entry. -/
def readRegister (t : SymbolTable) (id : RegisterId) : Int64 :=
  match t.registers[id.index]? with
  | some r => r.value
  | none => 0

/-- Gives a register a new value. -/
def writeRegister (t : SymbolTable) (id : RegisterId) (value : Int64) : SymbolTable :=
  { t with registers := t.registers.modify id.index fun r => { r with value } }

/-- The value of a register by name, if it was ever looked up. -/
def registerValue? (t : SymbolTable) (name : String) : Option Int64 :=
  (t.registers.find? (·.name == name)).map Register.value

/-! ## Labels -/

/-- The handle of a label, if it was looked up before. -/
def labelId? (t : SymbolTable) (name : String) : Option LabelId :=
  (t.labels.findIdx? (·.name == name)).map LabelId.mk

/-- The handle of a label, which is added without a line on first use. -/
def label (t : SymbolTable) (name : String) : Except Cause LabelId × SymbolTable :=
  if isLabelName name then
    match t.labelId? name with
    | some id => (.ok id, t)
    | none => (.ok ⟨t.labels.length⟩, { t with labels := t.labels ++ [⟨name, none⟩] })
  else (.error (.invalidLabel name), t)

/-- The handle belongs to an entry of the table. -/
def hasLabel (t : SymbolTable) (id : LabelId) : Bool :=
  id.index < t.labels.length

/-- The name of a label; empty for a handle without entry. -/
def labelName (t : SymbolTable) (id : LabelId) : String :=
  match t.labels[id.index]? with
  | some l => l.name
  | none => ""

/-- The line that defines a label, if it is known. -/
def labelTarget? (t : SymbolTable) (id : LabelId) : Option Nat :=
  t.labels[id.index]?.bind Label.target

/-- Records the line that defines a label. -/
def defineLabel (t : SymbolTable) (id : LabelId) (line : Nat) :
    Except Cause Unit × SymbolTable :=
  match t.labelTarget? id with
  | some first => (.error (.duplicateLabel (t.labelName id) (first + 1)), t)
  | none =>
    (.ok (), { t with labels := t.labels.modify id.index fun l => { l with target := some line } })

/-- The line a jump to a label leads to. -/
def jumpTarget (t : SymbolTable) (id : LabelId) : Except Cause Nat :=
  match t.labelTarget? id with
  | some line => .ok line
  | none => .error (.unresolvedLabel (t.labelName id))

/-- The labels that were looked up but not defined, in the order of their first use. -/
def unresolvedLabels (t : SymbolTable) : List String :=
  (t.labels.filter (·.target.isNone)).map Label.name

/-! ## Begin and end -/

/-- Records the line of `BEGIN`. -/
def markBegin (t : SymbolTable) (line : Nat) : Except Cause Unit × SymbolTable :=
  match t.begin with
  | some first => (.error (.duplicateBegin (first + 1)), t)
  | none => (.ok (), { t with begin := some line })

/-- Records the line of `END`. -/
def markEnd (t : SymbolTable) (line : Nat) : Except Cause Unit × SymbolTable :=
  match t.finish with
  | some first => (.error (.duplicateEnd (first + 1)), t)
  | none => (.ok (), { t with finish := some line })

/-! ## What a failing operation leaves behind -/

theorem defineLabel_snd_of_error {t : SymbolTable} {id : LabelId} {line : Nat} {c : Cause}
    (h : (t.defineLabel id line).1 = .error c) : (t.defineLabel id line).2 = t := by
  unfold defineLabel at *
  split <;> simp_all

end SymbolTable

end StackMachine
