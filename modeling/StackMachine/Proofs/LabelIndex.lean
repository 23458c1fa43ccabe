import Mathlib.Logic.Function.Basic
import StackMachine.Instruction
import StackMachine.Proofs.Symbols

/-!
# Labels by an index

A table finds a label by a search for its name. A table with an index finds it in the index and
enters every new label there; no other operation looks at the index, and only a new start clears
it. Both answer alike, since the index always says what a search finds.

* `SymbolTable.Indexed`: a table with an index; `Indexed.label`, `Indexed.bind`.
* `SymbolTable.indexed`: a table with the index of its labels.
* **`label_indexed`**, **`bind_indexed`**: with the index, labels are found and instructions bound
  as without it, and the index is again that of the labels.
-/

namespace StackMachine

namespace SymbolTable

/-! ## Tables with an index -/

/-- A table with an index of its labels. -/
structure Indexed where
  table : SymbolTable
  index : String → Option LabelId

namespace Indexed

/-- No entry, and nothing in the index. -/
def empty : Indexed :=
  ⟨SymbolTable.empty, fun _ => none⟩

/-- What is done to the entries leaves the index alone. -/
def onTable {α : Type} (x : Indexed) (result : α × SymbolTable) : α × Indexed :=
  (result.1, { x with table := result.2 })

/-- The handle of a label by the index, in which it is entered on first use. -/
def label (x : Indexed) (name : String) : Except Cause LabelId × Indexed :=
  if isLabelName name then
    match x.index name with
    | some id => (.ok id, x)
    | none =>
      let id : LabelId := ⟨x.table.labels.length⟩
      (.ok id, {
        table := { x.table with labels := x.table.labels ++ [⟨name, none⟩] }
        index := Function.update x.index name (some id) })
  else (.error (.invalidLabel name), x)

/-- Binds a label, or reports that it is missing. -/
def bindLabel (x : Indexed) (o : Opcode) (text : String) (make : LabelId → Instruction) :
    Except Cause Instruction × Indexed :=
  if text = "" then (.error (.missingOperand o), x)
  else
    match x.label text with
    | (.ok id, x) => (.ok (make id), x)
    | (.error c, x) => (.error c, x)

/-- Binds the operand text of an opcode, with the index if it is a label. -/
def bindOperand (x : Indexed) (o : Opcode) (text : String) : Except Cause Instruction × Indexed :=
  match o with
  | .label => x.bindLabel .label text .label
  | .jump => x.bindLabel .jump text .jump
  | .branch test => x.bindLabel (.branch test) text (.branch test)
  | .call => x.bindLabel .call text .call
  | o => x.onTable (Instruction.bindOperand x.table o text)

/-- Binds an opcode and its operand text on a line, counted from 0. -/
def bind (x : Indexed) (o : Opcode) (text : String) (line : Nat) :
    Except Cause Instruction × Indexed :=
  match x.bindOperand o text with
  | (.error c, x) => (.error c, x)
  | (.ok i, x) =>
    match x.onTable (Instruction.record x.table line i) with
    | (.error c, x) => (.error c, x)
    | (.ok (), x) => (.ok i, x)

end Indexed

/-- A table with the index of its labels. -/
def indexed (t : SymbolTable) : Indexed :=
  ⟨t, t.labelId?⟩

/-! ## What the index depends on -/

variable {t : SymbolTable} {name : String} {i : Instruction} {line : Nat}

@[simp] theorem table_indexed (t : SymbolTable) : t.indexed.table = t :=
  rfl

theorem indexed_empty : empty.indexed = Indexed.empty :=
  rfl

theorem labelId?_eq (t : SymbolTable) (name : String) :
    t.labelId? name = (t.usedLabels.findIdx? (· == name)).map LabelId.mk := by
  rw [labelId?, usedLabels, List.findIdx?_map]
  rfl

/-- **The index stays right** as long as the names of the labels do. -/
theorem onTable_indexed {α : Type} {result : α × SymbolTable}
    (h : result.2.usedLabels = t.usedLabels) :
    t.indexed.onTable result = (result.1, result.2.indexed) := by
  have hindex : t.labelId? = result.2.labelId? := by
    funext name
    rw [labelId?_eq, labelId?_eq, h]
  rw [Indexed.onTable, indexed, indexed, hindex]

/-- A new label is found at the end, and the others where they were. -/
theorem labelId?_concat (h : t.labelId? name = none) :
    SymbolTable.labelId? { t with labels := t.labels ++ [⟨name, none⟩] } =
      Function.update t.labelId? name (some ⟨t.labels.length⟩) := by
  funext other
  have hsearch : t.labels.findIdx? (·.name == name) = none := Option.map_eq_none_iff.1 h
  rw [labelId?, List.findIdx?_append]
  by_cases he : other = name
  · subst he
    rw [hsearch, Function.update_self]
    simp
  · rw [Function.update_of_ne he, labelId?]
    simp [Ne.symm he]

theorem usedLabels_register (t : SymbolTable) (name : String) :
    (t.register name).2.usedLabels = t.usedLabels := by
  unfold register
  split_ifs
  · split <;> rfl
  · rfl

theorem usedLabels_markBegin (t : SymbolTable) (line : Nat) :
    (t.markBegin line).2.usedLabels = t.usedLabels := by
  unfold markBegin
  split <;> rfl

theorem usedLabels_markEnd (t : SymbolTable) (line : Nat) :
    (t.markEnd line).2.usedLabels = t.usedLabels := by
  unfold markEnd
  split <;> rfl

theorem usedLabels_defineLabel (t : SymbolTable) (id : LabelId) (line : Nat) :
    (t.defineLabel id line).2.usedLabels = t.usedLabels := by
  unfold defineLabel
  split
  · rfl
  · apply List.ext_getElem?
    intro i
    rw [usedLabels, usedLabels, List.getElem?_map, List.getElem?_map, List.getElem?_modify]
    cases t.labels[i]? with
    | none => rfl
    | some l =>
      simp only [Option.map_some]
      split_ifs <;> rfl

theorem usedLabels_record (t : SymbolTable) (line : Nat) (i : Instruction) :
    (Instruction.record t line i).2.usedLabels = t.usedLabels := by
  cases i with
  | begin => exact usedLabels_markBegin t line
  | finish => exact usedLabels_markEnd t line
  | label id => exact usedLabels_defineLabel t id line
  | _ => rfl

theorem usedLabels_bindOperand {o : Opcode} (t : SymbolTable) (text : String)
    (h : o.shape ≠ .label) : (Instruction.bindOperand t o text).2.usedLabels = t.usedLabels := by
  have hregister (make : RegisterId → Instruction) :
      (Instruction.withOperand t o text
        (Instruction.ofOperand make (t.register text))).2.usedLabels = t.usedLabels := by
    unfold Instruction.withOperand
    split_ifs
    · rfl
    · rw [← usedLabels_register t text]
      rcases t.register text with ⟨_ | id, t'⟩ <;> rfl
  cases o with
  | label | jump | branch | call => exact absurd rfl h
  | pushRegister | popRegister => exact hregister _
  | push =>
    simp only [Instruction.bindOperand, Instruction.withOperand]
    split_ifs
    · rfl
    · rcases integer text with _ | value <;> rfl
  | _ =>
    simp only [Instruction.bindOperand, Instruction.bare]
    split_ifs <;> rfl

/-! ## With the index and without -/

/-- **Labels are found alike**, and the index is again that of the labels. -/
theorem label_indexed (t : SymbolTable) (name : String) :
    t.indexed.label name = ((t.label name).1, (t.label name).2.indexed) := by
  unfold Indexed.label label
  split_ifs
  · simp only [indexed]
    cases h : t.labelId? name with
    | none => simp only [labelId?_concat h]
    | some id => rfl
  · rfl

theorem bindLabel_indexed (t : SymbolTable) (o : Opcode) (text : String)
    (make : LabelId → Instruction) :
    let bound := Instruction.withOperand t o text (Instruction.ofOperand make (t.label text))
    t.indexed.bindLabel o text make = (bound.1, bound.2.indexed) := by
  unfold Indexed.bindLabel Instruction.withOperand
  rw [label_indexed]
  split_ifs
  · rfl
  · rcases t.label text with ⟨_ | id, t'⟩ <;> rfl

theorem bindOperand_indexed (t : SymbolTable) (o : Opcode) (text : String) :
    t.indexed.bindOperand o text =
      ((Instruction.bindOperand t o text).1, (Instruction.bindOperand t o text).2.indexed) := by
  cases o with
  | label | jump | branch test | call => exact bindLabel_indexed t _ text _
  | _ => exact onTable_indexed (usedLabels_bindOperand t text nofun)

/-- **Instructions are bound alike**, and the index is again that of the labels. -/
theorem bind_indexed (t : SymbolTable) (o : Opcode) (text : String) (line : Nat) :
    t.indexed.bind o text line =
      ((Instruction.bind t o text line).1, (Instruction.bind t o text line).2.indexed) := by
  unfold Indexed.bind Instruction.bind
  rw [bindOperand_indexed]
  rcases Instruction.bindOperand t o text with ⟨_ | i, t'⟩
  · rfl
  · simp only [table_indexed, onTable_indexed (usedLabels_record t' line i)]
    rcases Instruction.record t' line i with ⟨_ | _, t''⟩ <;> rfl

end SymbolTable

end StackMachine
