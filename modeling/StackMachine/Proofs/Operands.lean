import StackMachine.Instruction
import StackMachine.Listing
import StackMachine.Proofs.Symbols

/-!
# Operands

What operand text an opcode takes, said of the text alone, and what binding the text comes to.

* `Decimal.IsInteger`: a sign or none, then digits, in the range of machine integers;
  `integer_of_isInteger`, `integer_of_not_isInteger`: these texts and no others are read.
* `Record.Fits`: the operand of a record has the shape of its opcode; `Record.OperandFault`: what
  is wrong if it has not.
* `Binds`: an instruction does by handles what a record says by names.
* **`bindOperand_of_fits`**, **`bindOperand_of_not_fits`**: an operand is bound exactly when it
  fits, and one that does not fit leaves the table alone.
-/

namespace StackMachine

/-! ## Integers -/

namespace Decimal

/-- The part of a text behind its sign. -/
def unsigned : List Char → List Char
  | '+' :: digits => digits
  | '-' :: digits => digits
  | digits => digits

/-- The number that digits behind a sign spell. -/
def value : List Char → Int
  | '+' :: digits => Nat.ofDigitChars 10 digits 0
  | '-' :: digits => -(Nat.ofDigitChars 10 digits 0 : Int)
  | digits => Nat.ofDigitChars 10 digits 0

/-- A sign or none, then one or more digits; the number is a machine integer. -/
structure IsInteger (text : String) : Prop where
  ne_nil : unsigned text.toList ≠ []
  isDigit : ∀ c ∈ unsigned text.toList, c.isDigit = true
  inRange : InRange (value text.toList)

instance (text : String) : Decidable (IsInteger text) :=
  decidable_of_iff (unsigned text.toList ≠ [] ∧ (unsigned text.toList).all Char.isDigit = true ∧
      InRange (value text.toList))
    ⟨fun ⟨hn, hd, hr⟩ => ⟨hn, List.all_eq_true.1 hd, hr⟩,
      fun h => ⟨h.ne_nil, List.all_eq_true.2 h.isDigit, h.inRange⟩⟩

theorem natural?_eq (digits : List Char) : natural? digits =
    if digits ≠ [] ∧ digits.all Char.isDigit = true then some (Nat.ofDigitChars 10 digits 0)
    else none := by
  simp [natural?, List.isEmpty_eq_false_iff]

theorem integer?_eq (text : List Char) : integer? text =
    if unsigned text ≠ [] ∧ (unsigned text).all Char.isDigit = true then some (value text)
    else none := by
  unfold integer?
  split
  · simp only [natural?_eq, unsigned, value]
    split_ifs <;> rfl
  · simp only [natural?_eq, unsigned, value]
    split_ifs <;> rfl
  · next h₁ h₂ =>
    have hu : unsigned text = text := by
      unfold unsigned; split <;> simp_all
    have hv : value text = Nat.ofDigitChars 10 text 0 := by
      unfold value; split <;> simp_all
    rw [natural?_eq, hu, hv]
    split_ifs <;> rfl

end Decimal

theorem integer_of_isInteger {text : String} (h : Decimal.IsInteger text) :
    integer text = .ok (Int64.ofInt (Decimal.value text.toList)) := by
  unfold integer Decimal.read?
  have hd := List.all_eq_true.2 h.isDigit
  rw [Decimal.integer?_eq, if_pos ⟨h.ne_nil, hd⟩, Option.bind_some, if_pos h.inRange]

theorem integer_of_not_isInteger {text : String} (h : ¬ Decimal.IsInteger text) :
    integer text = .error (.invalidInteger text) := by
  unfold integer Decimal.read?
  rw [Decimal.integer?_eq]
  split_ifs with hd
  · rw [Option.bind_some, if_neg fun hr => h ⟨hd.1, List.all_eq_true.1 hd.2, hr⟩]
  · rfl

/-! ## Operand texts -/

namespace Record

/-- The operand is written as the opcode wants it. -/
def Fits (r : Record) : Prop :=
  match r.opcode.shape with
  | .none => r.operand = ""
  | .integer => Decimal.IsInteger r.operand
  | .register => r.operand ∈ ["ax", "bx", "cx", "dx", "ex"]
  | .label => ∃ c rest, r.operand.toList = c :: rest ∧ c.isAlpha = true ∧
      ∀ d ∈ rest, d.isAlphanum = true

/-- What is wrong with an operand that does not fit. -/
inductive OperandFault (r : Record) : Cause → Prop
  | unexpected : r.opcode.shape = .none → r.operand ≠ "" →
      OperandFault r (.unexpectedOperand r.opcode r.operand)
  | missing : r.opcode.shape ≠ .none → r.operand = "" → OperandFault r (.missingOperand r.opcode)
  | integer : r.opcode.shape = .integer → r.operand ≠ "" → ¬ r.Fits →
      OperandFault r (.invalidInteger r.operand)
  | register : r.opcode.shape = .register → r.operand ≠ "" → ¬ r.Fits →
      OperandFault r (.invalidRegister r.operand)
  | label : r.opcode.shape = .label → r.operand ≠ "" → ¬ r.Fits →
      OperandFault r (.invalidLabel r.operand)

/-- The register that a record names. -/
def registerName? (r : Record) : Option String :=
  if r.opcode.shape = .register then some r.operand else none

/-- The label that a record names. -/
def labelName? (r : Record) : Option String :=
  if r.opcode.shape = .label then some r.operand else none

end Record

theorem isLabelName_iff {name : String} : isLabelName name = true ↔
    ∃ c rest, name.toList = c :: rest ∧ c.isAlpha = true ∧ ∀ d ∈ rest, d.isAlphanum = true := by
  unfold isLabelName
  rcases name.toList with _ | ⟨c, rest⟩
  · simp
  · simp [List.all_eq_true]

instance (r : Record) : Decidable r.Fits :=
  match h : r.opcode.shape with
  | .none => decidable_of_iff (r.operand = "") (by simp only [Record.Fits, h])
  | .integer => decidable_of_iff (Decimal.IsInteger r.operand) (by simp only [Record.Fits, h])
  | .register =>
    decidable_of_iff (r.operand ∈ ["ax", "bx", "cx", "dx", "ex"]) (by simp only [Record.Fits, h])
  | .label => decidable_of_iff (isLabelName r.operand = true) <| by
    simp only [Record.Fits, h, isLabelName_iff]

/-! ## Binding operands -/

/-- In a table, an instruction does by handles what a record says by names. -/
inductive Binds (t : SymbolTable) : Record → Instruction → Prop
  | begin : Binds t ⟨.begin, ""⟩ .begin
  | finish : Binds t ⟨.finish, ""⟩ .finish
  | push {text : String} : Decimal.IsInteger text →
      Binds t ⟨.push, text⟩ (.push (Int64.ofInt (Decimal.value text.toList)))
  | pop : Binds t ⟨.pop, ""⟩ .pop
  | pushRegister {name : String} {id : RegisterId} : t.usedRegisters[id.index]? = some name →
      Binds t ⟨.pushRegister, name⟩ (.pushRegister id)
  | popRegister {name : String} {id : RegisterId} : t.usedRegisters[id.index]? = some name →
      Binds t ⟨.popRegister, name⟩ (.popRegister id)
  | arithmetic (op : Arithmetic) : Binds t ⟨.arithmetic op, ""⟩ (.arithmetic op)
  | read : Binds t ⟨.read, ""⟩ .read
  | write : Binds t ⟨.write, ""⟩ .write
  | label {name : String} {id : LabelId} : t.usedLabels[id.index]? = some name →
      Binds t ⟨.label, name⟩ (.label id)
  | jump {name : String} {id : LabelId} : t.usedLabels[id.index]? = some name →
      Binds t ⟨.jump, name⟩ (.jump id)
  | branch (test : Comparison) {name : String} {id : LabelId} :
      t.usedLabels[id.index]? = some name → Binds t ⟨.branch test, name⟩ (.branch test id)
  | call {name : String} {id : LabelId} : t.usedLabels[id.index]? = some name →
      Binds t ⟨.call, name⟩ (.call id)
  | ret : Binds t ⟨.ret, ""⟩ .ret
  | blank : Binds t ⟨.blank, ""⟩ .blank

variable {t t' : SymbolTable} {r : Record} {i : Instruction}

theorem Binds.mono (h : Binds t r i) (ht : t.Extends t') : Binds t' r i := by
  cases h with
  | push hv => exact .push hv
  | pushRegister hn => exact .pushRegister (ht.usedRegisters hn)
  | popRegister hn => exact .popRegister (ht.usedRegisters hn)
  | label hn => exact .label (ht.usedLabels hn)
  | jump hn => exact .jump (ht.usedLabels hn)
  | branch test hn => exact .branch test (ht.usedLabels hn)
  | call hn => exact .call (ht.usedLabels hn)
  | _ => constructor

theorem Binds.opcode (h : Binds t r i) : i.opcode = r.opcode := by
  cases h <;> rfl

namespace Record.Fits

theorem ne_empty (h : r.Fits) (hs : r.opcode.shape ≠ .none) : r.operand ≠ "" := by
  intro e
  unfold Fits at h
  split at h
  · exact hs ‹_›
  · exact h.ne_nil (by rw [e]; rfl)
  · rw [e] at h; exact absurd h (by decide)
  · obtain ⟨c, rest, hc, _⟩ := h
    rw [e] at hc; cases hc

theorem mem_registerNames (h : r.Fits) (hs : r.opcode.shape = .register) :
    r.operand ∈ registerNames := by
  simpa only [Fits, hs, registerNames] using h

theorem isLabelName (h : r.Fits) (hs : r.opcode.shape = .label) :
    isLabelName r.operand = true :=
  isLabelName_iff.2 <| by simpa only [Fits, hs] using h

end Record.Fits

/-- The table with an entry for what a record names. -/
def SymbolTable.addNames (t : SymbolTable) (r : Record) : SymbolTable :=
  match r.opcode.shape with
  | .register => t.addRegister r.operand
  | .label => t.addLabel r.operand
  | _ => t

namespace SymbolTable

theorem mem_usedRegisters_addNames {name : String} :
    name ∈ (t.addNames r).usedRegisters ↔
      name ∈ t.usedRegisters ∨ r.registerName? = some name := by
  unfold addNames Record.registerName?
  cases h : r.opcode.shape with
  | register => simp [mem_usedRegisters_addRegister, eq_comm]
  | label => simp [usedRegisters]
  | _ => simp

theorem mem_usedLabels_addNames {name : String} :
    name ∈ (t.addNames r).usedLabels ↔ name ∈ t.usedLabels ∨ r.labelName? = some name := by
  unfold addNames Record.labelName?
  cases h : r.opcode.shape with
  | register => simp [usedLabels]
  | label => simp [mem_usedLabels_addLabel, eq_comm]
  | _ => simp

/-- A register that is added has the value `0`. -/
theorem mem_registers_addNames {e : Register} (h : e ∈ (t.addNames r).registers) :
    e ∈ t.registers ∨ e.value = 0 := by
  unfold addNames addRegister addLabel at h
  split at h
  · split_ifs at h
    · exact Or.inl h
    · rcases List.mem_append.1 h with h | h
      · exact Or.inl h
      · rw [List.mem_singleton.1 h]; exact Or.inr rfl
  · split_ifs at h <;> exact Or.inl h
  · exact Or.inl h

/-- A label that is added has no line, and its name is new. -/
theorem mem_labels_addNames {l : Label} (h : l ∈ (t.addNames r).labels) :
    l ∈ t.labels ∨ l.target = none ∧ l.name ∉ t.usedLabels := by
  unfold addNames addRegister addLabel at h
  split at h
  · split_ifs at h <;> exact Or.inl h
  · split_ifs at h with hn
    · exact Or.inl h
    · rcases List.mem_append.1 h with h | h
      · exact Or.inl h
      · rw [List.mem_singleton.1 h]; exact Or.inr ⟨rfl, hn⟩
  · exact Or.inl h

@[simp] theorem begin_addNames : (t.addNames r).begin = t.begin := by
  unfold addNames; split <;> simp

@[simp] theorem finish_addNames : (t.addNames r).finish = t.finish := by
  unfold addNames; split <;> simp

theorem extends_addNames : t.Extends (t.addNames r) := by
  unfold addNames
  split
  · exact extends_addRegister
  · exact extends_addLabel
  · exact Extends.refl t

theorem WellFormed.addNames (h : t.WellFormed) (hr : r.Fits) : (t.addNames r).WellFormed := by
  unfold SymbolTable.addNames
  cases hs : r.opcode.shape with
  | register => exact h.addRegister (hr.mem_registerNames hs)
  | label => exact h.addLabel (hr.isLabelName hs)
  | _ => exact h

end SymbolTable

namespace Instruction

theorem withOperand_of_ne_empty {o : Opcode} {text : String} (h : text ≠ "")
    (bound : Except Cause Instruction × SymbolTable) : withOperand t o text bound = bound :=
  if_neg h

theorem withOperand_register {o : Opcode} {text : String} (make : RegisterId → Instruction)
    (t : SymbolTable) (hv : text ∈ registerNames) (hne : text ≠ "") :
    ∃ id, withOperand t o text (ofOperand make (t.register text)) =
        (.ok (make id), t.addRegister text) ∧
      (t.addRegister text).usedRegisters[id.index]? = some text := by
  obtain ⟨id, hb, hn⟩ := t.register_of_mem hv
  refine ⟨id, ?_, hn⟩
  rw [withOperand_of_ne_empty hne, hb]
  rfl

theorem withOperand_label {o : Opcode} {text : String} (make : LabelId → Instruction)
    (t : SymbolTable) (hv : isLabelName text = true) (hne : text ≠ "") :
    ∃ id, withOperand t o text (ofOperand make (t.label text)) =
        (.ok (make id), t.addLabel text) ∧
      (t.addLabel text).usedLabels[id.index]? = some text := by
  obtain ⟨id, hb, hn⟩ := t.label_of_isLabelName hv
  refine ⟨id, ?_, hn⟩
  rw [withOperand_of_ne_empty hne, hb]
  rfl

/-- **An operand that fits is bound**, in the table with an entry for what it names. -/
theorem bindOperand_of_fits (t : SymbolTable) (h : r.Fits) :
    ∃ i, bindOperand t r.opcode r.operand = (.ok i, t.addNames r) ∧ Binds (t.addNames r) r i := by
  have hne := h.ne_empty
  obtain ⟨o, text⟩ := r
  cases o with
  | push =>
    refine ⟨_, ?_, .push h⟩
    rw [bindOperand, withOperand_of_ne_empty (hne (by simp [Opcode.shape])),
      integer_of_isInteger h]
    rfl
  | pushRegister =>
    obtain ⟨id, hb, hn⟩ := withOperand_register pushRegister t h (hne (by simp [Opcode.shape]))
    exact ⟨_, hb, .pushRegister hn⟩
  | popRegister =>
    obtain ⟨id, hb, hn⟩ := withOperand_register popRegister t h (hne (by simp [Opcode.shape]))
    exact ⟨_, hb, .popRegister hn⟩
  | label =>
    obtain ⟨id, hb, hn⟩ :=
      withOperand_label label t (isLabelName_iff.2 h) (hne (by simp [Opcode.shape]))
    exact ⟨_, hb, .label hn⟩
  | jump =>
    obtain ⟨id, hb, hn⟩ :=
      withOperand_label jump t (isLabelName_iff.2 h) (hne (by simp [Opcode.shape]))
    exact ⟨_, hb, .jump hn⟩
  | branch test =>
    obtain ⟨id, hb, hn⟩ :=
      withOperand_label (branch test) t (isLabelName_iff.2 h) (hne (by simp [Opcode.shape]))
    exact ⟨_, hb, .branch test hn⟩
  | call =>
    obtain ⟨id, hb, hn⟩ :=
      withOperand_label call t (isLabelName_iff.2 h) (hne (by simp [Opcode.shape]))
    exact ⟨_, hb, .call hn⟩
  | _ =>
    obtain rfl : text = "" := h
    exact ⟨_, rfl, by constructor⟩

theorem bindOperand_of_empty (t : SymbolTable) {o : Opcode} (hs : o.shape ≠ .none) :
    bindOperand t o "" = (.error (.missingOperand o), t) := by
  cases o <;> first | rfl | exact absurd rfl hs

/-- **An operand that does not fit is refused**, and the table is left alone. -/
theorem bindOperand_of_not_fits (t : SymbolTable) (h : ¬ r.Fits) :
    ∃ c, bindOperand t r.opcode r.operand = (.error c, t) ∧ r.OperandFault c := by
  obtain ⟨o, text⟩ := r
  by_cases e : text = ""
  · subst e
    have hs : o.shape ≠ .none := fun hs => h (by simp [Record.Fits, hs])
    exact ⟨_, bindOperand_of_empty t hs, .missing hs rfl⟩
  · cases o with
    | push =>
      refine ⟨_, ?_, .integer rfl e h⟩
      rw [bindOperand, withOperand_of_ne_empty e, integer_of_not_isInteger h]
      rfl
    | pushRegister | popRegister =>
      refine ⟨_, ?_, .register rfl e h⟩
      rw [bindOperand, withOperand_of_ne_empty e, t.register_of_notMem h]
      rfl
    | label | jump | branch _ | call =>
      refine ⟨_, ?_, .label rfl e h⟩
      rw [bindOperand, withOperand_of_ne_empty e,
        t.label_of_not_isLabelName (mt isLabelName_iff.1 h)]
      rfl
    | _ => exact ⟨_, if_neg e, .unexpected rfl e⟩

end Instruction

end StackMachine
