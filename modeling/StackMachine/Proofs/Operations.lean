import StackMachine.Proofs.LabelIndex
import StackMachine.Proofs.Operands

/-!
# Operations on a symbol table

What can be done to a table: look names up, read and write through handles, record lines, bind
instructions, start anew. A handle is what a look-up answered, or the position of an entry that a
table used to have; one without entry is refused.

* `SymbolTable.Operation`, `SymbolTable.Answer`: the operations and what they answer.
* `SymbolTable.run`: operations in turn; **`run_append`**.
* **`run_indexed`**: a table with an index of its labels answers alike, and along all operations
  the index says what a search of the labels finds.
* `addNames_of_record_error`: a record that fails after its operand was bound has added no name;
  **`bind_snd_of_error`**: **a record that cannot be bound leaves the table as it was**.
* **`failed_bind_leaves_no_trace`**: no operation can tell that it was attempted.
-/

namespace StackMachine

namespace SymbolTable

/-! ## Operations and answers -/

/-- What can be done to a table. -/
inductive Operation
  | register (name : String)
  | registerValue (name : String)
  | readRegister (id : RegisterId)
  | writeRegister (id : RegisterId) (value : Int64)
  | label (name : String)
  | labelName (id : LabelId)
  | labelTarget (id : LabelId)
  | defineLabel (id : LabelId) (line : Nat)
  | jumpTarget (id : LabelId)
  | unresolvedLabels
  | markBegin (line : Nat)
  | markEnd (line : Nat)
  | begin
  | finish
  | bind (o : Opcode) (text : String) (line : Nat)
  | reset
  deriving DecidableEq

/-- What an operation answers. -/
inductive Answer
  | register (id : Except Cause RegisterId)
  | label (id : Except Cause LabelId)
  | value (value : Option Int64)
  | name (name : String)
  | names (names : List String)
  | line (line : Option Nat)
  | jump (line : Except Cause Nat)
  | recorded (done : Except Cause Unit)
  | bound (i : Except Cause Instruction)
  | done
  /-- The handle has no entry. -/
  | noEntry
  deriving DecidableEq

/-- An answer of a kind, and the table beside it. -/
def Answer.beside {α : Type} (make : α → Answer) : α × SymbolTable → Answer × SymbolTable
  | (answer, t) => (make answer, t)

/-- Does what needs the entry of a register. -/
def onRegister (t : SymbolTable) (id : RegisterId) (result : Answer × SymbolTable) :
    Answer × SymbolTable :=
  if t.hasRegister id then result else (.noEntry, t)

/-- Does what needs the entry of a label. -/
def onLabel (t : SymbolTable) (id : LabelId) (result : Answer × SymbolTable) :
    Answer × SymbolTable :=
  if t.hasLabel id then result else (.noEntry, t)

/-- The answer of an operation and the table it leaves behind. -/
def apply (t : SymbolTable) : Operation → Answer × SymbolTable
  | .register name => Answer.beside .register (t.register name)
  | .registerValue name => (.value (t.registerValue? name), t)
  | .readRegister id => t.onRegister id (.value (some (t.readRegister id)), t)
  | .writeRegister id value => t.onRegister id (.done, t.writeRegister id value)
  | .label name => Answer.beside .label (t.label name)
  | .labelName id => t.onLabel id (.name (t.labelName id), t)
  | .labelTarget id => t.onLabel id (.line (t.labelTarget? id), t)
  | .defineLabel id line => t.onLabel id (Answer.beside .recorded (t.defineLabel id line))
  | .jumpTarget id => t.onLabel id (.jump (t.jumpTarget id), t)
  | .unresolvedLabels => (.names t.unresolvedLabels, t)
  | .markBegin line => Answer.beside .recorded (t.markBegin line)
  | .markEnd line => Answer.beside .recorded (t.markEnd line)
  | .begin => (.line t.begin, t)
  | .finish => (.line t.finish, t)
  | .bind o text line => Answer.beside .bound (Instruction.bind t o text line)
  | .reset => (.done, t.reset)

/-- The answers of operations in turn, and the table they leave behind. -/
def run (t : SymbolTable) : List Operation → List Answer × SymbolTable
  | [] => ([], t)
  | operation :: rest =>
    let (answer, t) := t.apply operation
    let (answers, t) := t.run rest
    (answer :: answers, t)

theorem run_cons (t : SymbolTable) (operation : Operation) (rest : List Operation) :
    t.run (operation :: rest) =
      ((t.apply operation).1 :: ((t.apply operation).2.run rest).1,
        ((t.apply operation).2.run rest).2) :=
  rfl

theorem run_append (t : SymbolTable) (before after : List Operation) :
    t.run (before ++ after) =
      ((t.run before).1 ++ ((t.run before).2.run after).1, ((t.run before).2.run after).2) := by
  induction before generalizing t with
  | nil => rfl
  | cons operation before ih => rw [List.cons_append, run_cons, ih, run_cons, List.cons_append]

@[simp] theorem length_run (t : SymbolTable) (operations : List Operation) :
    (t.run operations).1.length = operations.length := by
  induction operations generalizing t with
  | nil => rfl
  | cons operation rest ih => exact congrArg (· + 1) (ih _)

/-! ## Operations with an index of the labels -/

namespace Indexed

/-- The answer of an operation and the table it leaves behind: labels are looked up in the index,
and nothing else reads it. -/
def apply (x : Indexed) : Operation → Answer × Indexed
  | .label name => (.label (x.label name).1, (x.label name).2)
  | .bind o text line => (.bound (x.bind o text line).1, (x.bind o text line).2)
  | .reset => (.done, empty)
  | operation => x.onTable (x.table.apply operation)

/-- The answers of operations in turn, and the table they leave behind. -/
def run (x : Indexed) : List Operation → List Answer × Indexed
  | [] => ([], x)
  | operation :: rest =>
    let (answer, x) := x.apply operation
    let (answers, x) := x.run rest
    (answer :: answers, x)

end Indexed

variable {t : SymbolTable}

theorem usedLabels_onRegister {id : RegisterId} {result : Answer × SymbolTable}
    (h : result.2.usedLabels = t.usedLabels) :
    (t.onRegister id result).2.usedLabels = t.usedLabels := by
  unfold onRegister
  split_ifs
  · exact h
  · rfl

theorem usedLabels_onLabel {id : LabelId} {result : Answer × SymbolTable}
    (h : result.2.usedLabels = t.usedLabels) :
    (t.onLabel id result).2.usedLabels = t.usedLabels := by
  unfold onLabel
  split_ifs
  · exact h
  · rfl

/-- **An operation does with the index what it does without**, and leaves the index of the labels
behind. -/
theorem apply_indexed (t : SymbolTable) (operation : Operation) :
    t.indexed.apply operation = ((t.apply operation).1, (t.apply operation).2.indexed) := by
  cases operation with
  | label name =>
    rw [Indexed.apply, label_indexed]
    rfl
  | bind o text line =>
    rw [Indexed.apply, bind_indexed]
    rfl
  | reset => rfl
  | register name => exact onTable_indexed (usedLabels_register t name)
  | markBegin line => exact onTable_indexed (usedLabels_markBegin t line)
  | markEnd line => exact onTable_indexed (usedLabels_markEnd t line)
  | defineLabel id line =>
    exact onTable_indexed (usedLabels_onLabel (usedLabels_defineLabel t id line))
  | readRegister | writeRegister => exact onTable_indexed (usedLabels_onRegister rfl)
  | labelName | labelTarget | jumpTarget => exact onTable_indexed (usedLabels_onLabel rfl)
  | _ => exact onTable_indexed rfl

/-- **A table with an index answers alike**, and its index is always that of its labels. -/
theorem run_indexed (t : SymbolTable) (operations : List Operation) :
    t.indexed.run operations = ((t.run operations).1, (t.run operations).2.indexed) := by
  induction operations generalizing t with
  | nil => rfl
  | cons operation rest ih =>
    simp only [Indexed.run, apply_indexed, ih, run_cons]

end SymbolTable

/-! ## Binding that fails -/

namespace Instruction

variable {t : SymbolTable} {r : Record} {i : Instruction} {c : Cause} {line : Nat}

theorem record_snd_of_error (h : (record t line i).1 = .error c) : (record t line i).2 = t := by
  cases i with
  | begin =>
    cases hb : t.begin with
    | none =>
      rw [record, SymbolTable.markBegin_of_none hb] at h
      cases h
    | some first => rw [record, SymbolTable.markBegin_of_some hb]
  | finish =>
    cases hb : t.finish with
    | none =>
      rw [record, SymbolTable.markEnd_of_none hb] at h
      cases h
    | some first => rw [record, SymbolTable.markEnd_of_some hb]
  | label id => exact SymbolTable.defineLabel_snd_of_error h
  | _ => rfl

/-- An operand whose line cannot be recorded was known before: a label that is new has no line. -/
theorem addNames_of_record_error (hi : Binds (t.addNames r) r i)
    (h : (record (t.addNames r) line i).1 = .error c) : t.addNames r = t := by
  cases hi with
  | begin | finish => rfl
  | @label name id hn =>
    obtain ⟨l, hl, hname, htarget⟩ := SymbolTable.labelTarget?_of_named hn
    obtain hl | ⟨hnone, -⟩ := SymbolTable.mem_labels_addNames hl
    · have hused : name ∈ t.usedLabels := hname ▸ List.mem_map_of_mem hl
      exact if_pos hused
    · rw [hnone] at htarget
      rw [record, SymbolTable.defineLabel, htarget] at h
      cases h
  | _ => cases h

/-- **A record that cannot be bound leaves the table as it was.** -/
theorem bind_snd_of_error {o : Opcode} {text : String} (h : (bind t o text line).1 = .error c) :
    (bind t o text line).2 = t := by
  by_cases hfits : Record.Fits ⟨o, text⟩
  · obtain ⟨i, hb, hi⟩ := bindOperand_of_fits t hfits
    rcases hr : record (t.addNames ⟨o, text⟩) line i with ⟨c' | _, t'⟩
    · have hrecord : (record (t.addNames ⟨o, text⟩) line i).1 = .error c' := by rw [hr]
      have ht' := record_snd_of_error hrecord
      rw [hr] at ht'
      simp only [bind, hb, hr]
      exact ht'.trans (addNames_of_record_error hi hrecord)
    · simp only [bind, hb, hr] at h
      cases h
  · obtain ⟨c', hb, -⟩ := bindOperand_of_not_fits t hfits
    simp only [bind, hb]

end Instruction

namespace SymbolTable

/-- **A failed binding leaves no trace.** Behind any operations, an opcode and a text that cannot be
bound leave the table as it was: every register with its value, every label with its line, the
index of the labels and the lines of `BEGIN` and `END`. Whatever is done to the table afterwards,
with an index of the labels or without, is answered as if nothing had been attempted. -/
theorem failed_bind_leaves_no_trace (before : List Operation) (o : Opcode) (text : String)
    (line : Nat) {c : Cause} :
    let t := (empty.run before).2
    let x := (Indexed.empty.run before).2
    (Instruction.bind t o text line).1 = .error c →
      (Instruction.bind t o text line).2 = t ∧ x.table = t ∧ x.bind o text line = (.error c, x) ∧
      ∀ after, ∃ answers answers' x', answers.length = before.length ∧
        Indexed.empty.run (before ++ .bind o text line :: after) =
          (answers ++ .bound (.error c) :: answers', x') ∧
        Indexed.empty.run (before ++ after) = (answers ++ answers', x') ∧
        empty.run (before ++ .bind o text line :: after) =
          (answers ++ .bound (.error c) :: answers', x'.table) ∧
        empty.run (before ++ after) = (answers ++ answers', x'.table) := by
  intro t x hfail
  have ht : (Instruction.bind t o text line).2 = t := Instruction.bind_snd_of_error hfail
  have hindexed (operations : List Operation) : Indexed.empty.run operations =
      ((empty.run operations).1, (empty.run operations).2.indexed) := by
    rw [← indexed_empty, run_indexed]
  have hx : x = t.indexed := congrArg Prod.snd (hindexed before)
  have hbind : t.apply (.bind o text line) = (.bound (.error c), t) := by
    rw [apply, Answer.beside, hfail, ht]
  have hwith (after : List Operation) : empty.run (before ++ .bind o text line :: after) =
      ((empty.run before).1 ++ .bound (.error c) :: (t.run after).1, (t.run after).2) := by
    rw [run_append, run_cons, hbind]
  refine ⟨ht, congrArg Indexed.table hx, ?_, fun after => ⟨(empty.run before).1, (t.run after).1,
    (t.run after).2.indexed, length_run _ _, ?_, ?_, hwith after, run_append _ _ _⟩⟩
  · rw [hx, bind_indexed, hfail, ht]
  · rw [hindexed, hwith]
  · rw [hindexed, run_append]

/-- A label that is defined again, behind which its first line and the handle of a new label are
found as if that had not been tried. -/
theorem failed_bind_leaves_no_trace_defined_again :
    let before : List Operation := [.bind .jump "a" 0, .bind .label "a" 3, .register "ax"]
    let after : List Operation := [.label "b", .jumpTarget ⟨0⟩, .labelTarget ⟨2⟩, .unresolvedLabels]
    let t := (empty.run before).2
    let x := (Indexed.empty.run before).2
    (Instruction.bind t .label "a" 5).1 = .error (.duplicateLabel "a" 4) ∧
      (Instruction.bind t .label "a" 5).2 = t ∧
      x.bind .label "a" 5 = (.error (.duplicateLabel "a" 4), x) ∧
      x.index "a" = some ⟨0⟩ ∧ x.index "b" = none ∧
      (x.run after).1 = [.label (.ok ⟨1⟩), .jump (.ok 3), .noEntry, .names ["b"]] ∧
      ∃ answers answers' x', answers.length = 3 ∧
        Indexed.empty.run (before ++ .bind .label "a" 5 :: after) =
          (answers ++ .bound (.error (.duplicateLabel "a" 4)) :: answers', x') ∧
        Indexed.empty.run (before ++ after) = (answers ++ answers', x') := by
  intro before after t x
  have hfail : (Instruction.bind t .label "a" 5).1 = .error (.duplicateLabel "a" 4) := by
    decide +kernel
  have hanswers : (x.run after).1 =
      [.label (.ok ⟨1⟩), .jump (.ok 3), .noEntry, .names ["b"]] := by decide +kernel
  obtain ⟨ht, -, hx, hafter⟩ := failed_bind_leaves_no_trace before .label "a" 5 hfail
  obtain ⟨answers, answers', x', hlength, hwith, hwithout, -, -⟩ := hafter after
  exact ⟨hfail, ht, hx, by decide +kernel, by decide +kernel, hanswers, answers, answers', x',
    hlength, hwith, hwithout⟩

end SymbolTable

end StackMachine
