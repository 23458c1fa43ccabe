import Mathlib.Logic.Equiv.Basic
import StackMachine.Proofs.Faults
import StackMachine.Proofs.Finishes

/-!
# Other names

Labels and registers are bound to handles in the order of their first use. New names, distinct
where the old ones were, are therefore bound to the same handles, and the program does the same
under them.

* `Renaming`: new names for all labels, and the registers interchanged.
* `Record.rename`, `SymbolTable.rename`, `Cause.rename`, `Machine.rename` and their like: everything
  that holds names, with the new ones.
* **`bind_rename`**, **`ofListing_rename`**: binding commutes with renaming, whether it succeeds or
  fails.
* **`exec_rename`**, **`step_rename`**, **`after_rename`**: so do instructions, steps and runs.
* **`rename_runs_alike`**: a program under other names.
-/

namespace StackMachine

/-! ## Names -/

/-- A name that a label can have. -/
abbrev LabelName := {name : String // isLabelName name = true}

/-- A name that a register can have. -/
abbrev RegisterName := {name : String // name ∈ registerNames}

section OnNames

variable {P : String → Prop} [DecidablePred P] {f : {name // P name} → {name // P name}}

/-- A function of names on all texts; a text that is no name stays as it is. -/
def onNames (f : {name // P name} → {name // P name}) (text : String) : String :=
  if h : P text then f ⟨text, h⟩ else text

theorem onNames_of_name {text : String} (h : P text) : onNames f text = f ⟨text, h⟩ :=
  dif_pos h

theorem onNames_of_not {text : String} (h : ¬ P text) : onNames f text = text :=
  dif_neg h

theorem name_onNames_iff {text : String} : P (onNames f text) ↔ P text := by
  by_cases h : P text
  · rw [onNames_of_name h]
    exact iff_of_true (f ⟨text, h⟩).2 h
  · rw [onNames_of_not h]

theorem onNames_injective (hf : Function.Injective f) : Function.Injective (onNames f) := by
  intro text text' h
  have hname : P text ↔ P text' :=
    (name_onNames_iff (f := f)).symm.trans (h ▸ name_onNames_iff (f := f))
  by_cases ht : P text
  · rw [onNames_of_name ht, onNames_of_name (hname.1 ht)] at h
    exact congrArg Subtype.val (hf (Subtype.ext h))
  · rwa [onNames_of_not ht, onNames_of_not (mt hname.2 ht)] at h

end OnNames

/-- New names for labels, distinct ones for distinct labels, and for the registers. -/
structure Renaming where
  labels : LabelName → LabelName
  injective : Function.Injective labels
  registers : Equiv.Perm RegisterName

namespace Renaming

variable (ρ : Renaming) {text : String}

/-- A label under its new name. -/
def label (text : String) : String :=
  onNames ρ.labels text

/-- A register under its new name. -/
def register (text : String) : String :=
  onNames ρ.registers text

theorem label_injective : Function.Injective ρ.label :=
  onNames_injective ρ.injective

theorem register_injective : Function.Injective ρ.register :=
  onNames_injective ρ.registers.injective

@[simp] theorem isLabelName_label : isLabelName (ρ.label text) = isLabelName text :=
  Bool.eq_iff_iff.2 (name_onNames_iff (f := ρ.labels))

@[simp] theorem mem_registerNames_register :
    ρ.register text ∈ registerNames ↔ text ∈ registerNames :=
  name_onNames_iff

theorem label_of_not (h : ¬ isLabelName text = true) : ρ.label text = text :=
  onNames_of_not h

theorem register_of_notMem (h : text ∉ registerNames) : ρ.register text = text :=
  onNames_of_not h

@[simp] theorem label_empty : ρ.label "" = "" :=
  ρ.label_of_not (by decide)

@[simp] theorem register_empty : ρ.register "" = "" :=
  ρ.register_of_notMem (by decide)

/-- The operand of an opcode under its new name, if it is one. -/
def operand (o : Opcode) (text : String) : String :=
  match o.shape with
  | .label => ρ.label text
  | .register => ρ.register text
  | _ => text

end Renaming

/-! ## Everything that holds names -/

variable (ρ : Renaming)

def Record.rename (r : Record) : Record :=
  { r with operand := ρ.operand r.opcode r.operand }

def Listing.rename (l : Listing) : Listing :=
  ⟨l.records.map (Record.rename ρ)⟩

/-- Only these causes name a label that can be renamed. -/
def Cause.rename : Cause → Cause
  | unresolvedLabel label => unresolvedLabel (ρ.label label)
  | duplicateLabel label first => duplicateLabel (ρ.label label) first
  | c => c

def Fault.rename : Fault → Fault
  | cause c => cause (c.rename ρ)
  | assembly line source => assembly line source.rename
  | runtime line source => runtime line source.rename

def SymbolTable.rename (t : SymbolTable) : SymbolTable where
  registers := t.registers.map fun r => { r with name := ρ.register r.name }
  labels := t.labels.map fun l => { l with name := ρ.label l.name }
  begin := t.begin
  finish := t.finish

def Program.rename (p : Program) : Program :=
  { p with listing := p.listing.rename ρ, symbols := p.symbols.rename ρ }

def Machine.rename (m : Machine) : Machine :=
  { m with program := m.program.rename ρ }

/-- The answer of an operation on a table, and the table it leaves behind. -/
def Renaming.answer {α : Type} (r : Except Cause α × SymbolTable) : Except Cause α × SymbolTable :=
  (r.1.mapError (Cause.rename ρ), r.2.rename ρ)

@[simp] theorem Fault.line?_rename (f : Fault) : (f.rename ρ).line? = f.line? := by
  cases f <;> rfl

theorem Fault.atRuntimeLine_rename (f : Fault) (line : Nat) :
    (f.rename ρ).atRuntimeLine line = (f.atRuntimeLine line).rename ρ := by
  unfold atRuntimeLine
  rw [line?_rename]
  split_ifs <;> rfl

/-! ## Tables -/

namespace SymbolTable

variable {ρ} {t : SymbolTable} {name : String} {id : LabelId} {line : Nat}

theorem registerId?_rename : (t.rename ρ).registerId? (ρ.register name) = t.registerId? name := by
  have hname : ∀ r : Register, (ρ.register r.name == ρ.register name) = (r.name == name) :=
    fun _ => ρ.register_injective.beq_eq
  simp [registerId?, rename, List.findIdx?_map, Function.comp_def, hname]

theorem labelId?_rename : (t.rename ρ).labelId? (ρ.label name) = t.labelId? name := by
  have hname : ∀ l : Label, (ρ.label l.name == ρ.label name) = (l.name == name) :=
    fun _ => ρ.label_injective.beq_eq
  simp [labelId?, rename, List.findIdx?_map, Function.comp_def, hname]

/-- **A renamed register has the same handle.** -/
theorem register_rename :
    (t.rename ρ).register (ρ.register name) = ρ.answer (t.register name) := by
  unfold register
  simp only [registerId?_rename, ρ.mem_registerNames_register]
  split_ifs with h
  · cases t.registerId? name with
    | none => simp [Renaming.answer, rename, Except.mapError]
    | some id => rfl
  · rw [ρ.register_of_notMem h]
    rfl

/-- **A renamed label has the same handle.** -/
theorem label_rename : (t.rename ρ).label (ρ.label name) = ρ.answer (t.label name) := by
  unfold label
  rw [labelId?_rename, ρ.isLabelName_label]
  split_ifs with h
  · cases t.labelId? name with
    | none => simp [Renaming.answer, rename, Except.mapError]
    | some id => rfl
  · rw [ρ.label_of_not h]
    rfl

theorem labelTarget?_rename : (t.rename ρ).labelTarget? id = t.labelTarget? id := by
  simp only [labelTarget?, rename, List.getElem?_map]
  cases t.labels[id.index]? <;> rfl

theorem labelName_rename : (t.rename ρ).labelName id = ρ.label (t.labelName id) := by
  simp only [labelName, rename, List.getElem?_map]
  cases t.labels[id.index]? with
  | none => exact ρ.label_empty.symm
  | some l => rfl

theorem jumpTarget_rename :
    (t.rename ρ).jumpTarget id = (t.jumpTarget id).mapError (Cause.rename ρ) := by
  unfold jumpTarget
  rw [labelTarget?_rename, labelName_rename]
  cases t.labelTarget? id <;> rfl

theorem defineLabel_rename :
    (t.rename ρ).defineLabel id line = ρ.answer (t.defineLabel id line) := by
  unfold defineLabel
  rw [labelTarget?_rename, labelName_rename]
  cases t.labelTarget? id with
  | some first => rfl
  | none =>
    simp only [Renaming.answer, rename, Except.mapError, Prod.mk.injEq, true_and,
      SymbolTable.mk.injEq, and_true]
    refine List.ext_getElem? fun j => ?_
    simp only [List.getElem?_modify, List.getElem?_map]
    cases t.labels[j]? with
    | none => rfl
    | some l => by_cases hj : id.index = j <;> simp [hj]

theorem markBegin_rename : (t.rename ρ).markBegin line = ρ.answer (t.markBegin line) := by
  obtain ⟨registers, labels, _ | first, finish⟩ := t <;> rfl

theorem markEnd_rename : (t.rename ρ).markEnd line = ρ.answer (t.markEnd line) := by
  obtain ⟨registers, labels, begin, _ | first⟩ := t <;> rfl

theorem readRegister_rename {reg : RegisterId} :
    (t.rename ρ).readRegister reg = t.readRegister reg := by
  simp only [readRegister, rename, List.getElem?_map]
  cases t.registers[reg.index]? <;> rfl

theorem writeRegister_rename {reg : RegisterId} {value : Int64} :
    (t.rename ρ).writeRegister reg value = (t.writeRegister reg value).rename ρ := by
  simp only [writeRegister, rename, SymbolTable.mk.injEq, and_true]
  refine List.ext_getElem? fun j => ?_
  simp only [List.getElem?_modify, List.getElem?_map]
  cases t.registers[j]? with
  | none => rfl
  | some r => by_cases hj : reg.index = j <;> simp [hj]

theorem registerValue?_rename :
    (t.rename ρ).registerValue? (ρ.register name) = t.registerValue? name := by
  have hname : ∀ r : Register, (ρ.register r.name == ρ.register name) = (r.name == name) :=
    fun _ => ρ.register_injective.beq_eq
  simp [registerValue?, rename, List.find?_map, Function.comp_def, hname]

end SymbolTable

/-! ## Binding -/

namespace Instruction

variable {ρ} {t : SymbolTable} {o : Opcode} {text text' : String} {line : Nat} {i : Instruction}

theorem ofOperand_answer {α : Type} (make : α → Instruction) (r : Except Cause α × SymbolTable) :
    ofOperand make (ρ.answer r) = ρ.answer (ofOperand make r) := by
  obtain ⟨_ | a, t⟩ := r <;> rfl

theorem bare_rename : bare (t.rename ρ) o text i = ρ.answer (bare t o text i) := by
  unfold bare
  split_ifs <;> rfl

theorem withOperand_rename (h : text' = "" ↔ text = "")
    (r : Except Cause Instruction × SymbolTable) :
    withOperand (t.rename ρ) o text' (ρ.answer r) = ρ.answer (withOperand t o text r) := by
  unfold withOperand
  simp only [h]
  split_ifs <;> rfl

theorem bindOperand_rename :
    bindOperand (t.rename ρ) o (ρ.operand o text) = ρ.answer (bindOperand t o text) := by
  have hregister : ρ.register text = "" ↔ text = "" :=
    ⟨fun h => ρ.register_injective (h.trans ρ.register_empty.symm), fun h => h ▸ ρ.register_empty⟩
  have hlabel : ρ.label text = "" ↔ text = "" :=
    ⟨fun h => ρ.label_injective (h.trans ρ.label_empty.symm), fun h => h ▸ ρ.label_empty⟩
  cases o with
  | push =>
    have h : ((integer text, t.rename ρ) : Except Cause Int64 × SymbolTable) =
        ρ.answer (integer text, t) := by
      unfold integer
      cases Decimal.read? text <;> rfl
    simp only [bindOperand, Renaming.operand, Opcode.shape, h, ofOperand_answer]
    exact withOperand_rename Iff.rfl _
  | pushRegister | popRegister =>
    simp only [bindOperand, Renaming.operand, Opcode.shape, SymbolTable.register_rename,
      ofOperand_answer]
    exact withOperand_rename hregister _
  | label | jump | branch _ | call =>
    simp only [bindOperand, Renaming.operand, Opcode.shape, SymbolTable.label_rename,
      ofOperand_answer]
    exact withOperand_rename hlabel _
  | _ => exact bare_rename

theorem record_rename : record (t.rename ρ) line i = ρ.answer (record t line i) := by
  cases i with
  | begin => exact SymbolTable.markBegin_rename
  | finish => exact SymbolTable.markEnd_rename
  | label => exact SymbolTable.defineLabel_rename
  | _ => rfl

/-- **Binding a renamed record** gives the same instruction or the same fault. -/
theorem bind_rename :
    bind (t.rename ρ) o (ρ.operand o text) line = ρ.answer (bind t o text line) := by
  unfold bind
  rw [bindOperand_rename]
  rcases bindOperand t o text with ⟨c | i, t₁⟩
  · rfl
  · have hrecord : record (t₁.rename ρ) line i = ρ.answer (record t₁ line i) := record_rename
    simp only [Renaming.answer, Except.mapError] at hrecord ⊢
    rw [hrecord]
    rcases record t₁ line i with ⟨c | u, t₂⟩ <;> rfl

end Instruction

variable {ρ} {l : Listing} {t : SymbolTable} {line : Nat} {rs : List Record}

theorem bindFrom_rename : bindFrom (t.rename ρ) line (rs.map (Record.rename ρ)) =
    ((bindFrom t line rs).map (Prod.map id (SymbolTable.rename ρ))).mapError (Fault.rename ρ) := by
  induction rs generalizing t line with
  | nil => rfl
  | cons r rs ih =>
    have hbind : Instruction.bind (t.rename ρ) (r.rename ρ).opcode (r.rename ρ).operand line =
        ρ.answer (Instruction.bind t r.opcode r.operand line) := Instruction.bind_rename
    rw [List.map_cons, bindFrom, bindFrom, hbind]
    rcases Instruction.bind t r.opcode r.operand line with ⟨c | i, t₁⟩
    · rfl
    · simp only [Renaming.answer, Except.mapError, ih]
      cases bindFrom t₁ (line + 1) rs <;> rfl

/-- **A renamed listing is accepted or rejected as the listing is.** -/
theorem ofListing_rename : Program.ofListing (l.rename ρ) =
    ((Program.ofListing l).map (Program.rename ρ)).mapError (Fault.rename ρ) := by
  have hbind : bindFrom .empty 0 (l.rename ρ).records =
      ((bindFrom .empty 0 l.records).map (Prod.map id (SymbolTable.rename ρ))).mapError
        (Fault.rename ρ) := bindFrom_rename (t := .empty)
  unfold Program.ofListing
  rw [hbind]
  rcases bindFrom .empty 0 l.records with f | ⟨is, registers, labels, _ | entry, finish⟩ <;> rfl

/-! ## Instructions -/

/-- The fault of an instruction under other names; it can name the label that the instruction
refers to. -/
def Renaming.faultOf (ρ : Renaming) (named : Option LabelId) (f : Fault) : Fault :=
  if named.isSome then f.rename ρ else f

theorem Renaming.atRuntimeLine_faultOf (ρ : Renaming) (named : Option LabelId) (f : Fault)
    (line : Nat) :
    (ρ.faultOf named f).atRuntimeLine line = ρ.faultOf named (f.atRuntimeLine line) := by
  unfold faultOf
  split_ifs
  · exact f.atRuntimeLine_rename ρ line
  · rfl

namespace Machine

variable {m : Machine} {named : Option LabelId}

/-- The outcome is the same under other names. -/
def OutcomeRenamed (ρ : Renaming) (named : Option LabelId) (o o' : Outcome Machine) : Prop :=
  o' = (o.1.mapError (ρ.faultOf named), o.2.rename ρ)

theorem fail_rename {c : Cause} (h : c.rename ρ = c) (m : Machine) :
    OutcomeRenamed ρ named (m.fail c) ((m.rename ρ).fail c) := by
  have hc : ρ.faultOf named (.cause c) = .cause c := by
    simp [Renaming.faultOf, Fault.rename, h]
  simp only [OutcomeRenamed, fail, Except.mapError, hc]

theorem popping_rename (m : Machine) {next : Int64 → Machine → Action Machine}
    (h : ∀ value m, Action.Rel (OutcomeRenamed ρ named) (next value m)
      (next value (m.rename ρ))) :
    Action.Rel (OutcomeRenamed ρ named) (m.popping next) ((m.rename ρ).popping next) :=
  popping_rel rfl (fail_rename rfl m) fun value stack => h value { m with stack }

theorem poppingTwo_rename (m : Machine) {next : Int64 → Int64 → Machine → Outcome Machine}
    (h : ∀ top second m, OutcomeRenamed ρ named (next top second m)
      (next top second (m.rename ρ))) :
    Action.Rel (OutcomeRenamed ρ named) (m.poppingTwo next) ((m.rename ρ).poppingTwo next) :=
  popping_rename m fun top m => popping_rename m fun second m => .settle (h top second m)

theorem jumpTarget_rename (m : Machine) (id : LabelId) :
    (m.rename ρ).program.symbols.jumpTarget id =
      (m.program.symbols.jumpTarget id).mapError (Cause.rename ρ) :=
  SymbolTable.jumpTarget_rename

theorem jumping_rename (m : Machine) (id : LabelId) :
    OutcomeRenamed ρ (some id) (m.jumping id) ((m.rename ρ).jumping id) := by
  unfold jumping
  rw [jumpTarget_rename]
  cases m.program.symbols.jumpTarget id <;> rfl

theorem setRegister_rename (m : Machine) (id : RegisterId) (value : Int64) :
    (m.rename ρ).setRegister id value = (m.setRegister id value).rename ρ := by
  simp only [setRegister, rename, Program.rename, SymbolTable.writeRegister_rename]

/-- **An instruction does the same under other names.** -/
theorem exec_rename (m : Machine) (i : Instruction) :
    Action.Rel (OutcomeRenamed ρ i.label?) (m.exec i) ((m.rename ρ).exec i) := by
  cases i with
  | begin | blank | label | finish | push => exact .settle rfl
  | pushRegister id =>
    have hread : (m.rename ρ).program.symbols.readRegister id =
        m.program.symbols.readRegister id := SymbolTable.readRegister_rename
    simp only [exec, hread]
    exact .settle rfl
  | pop =>
    rw [exec, exec]
    exact popping_rename m fun _ _ => .settle rfl
  | popRegister id =>
    rw [exec, exec]
    refine popping_rename m fun value m => .settle ?_
    rw [setRegister_rename]
    rfl
  | arithmetic op =>
    refine poppingTwo_rename m fun top second m => ?_
    cases op.apply? second top with
    | none => exact fail_rename rfl m
    | some value => rfl
  | read =>
    refine .read ?_
    rintro (_ | _) <;> rfl
  | write =>
    rw [exec, exec]
    refine popping_rename m fun value m => .write value ?_
    rintro (_ | _) <;> rfl
  | jump id => exact .settle (jumping_rename m id)
  | branch test id =>
    refine poppingTwo_rename m fun top second m => ?_
    dsimp only
    split_ifs
    · exact jumping_rename { m with stack := m.stack.push top } id
    · rfl
  | call id =>
    simp only [exec, jumpTarget_rename]
    refine .settle ?_
    cases m.program.symbols.jumpTarget id <;> rfl
  | ret =>
    obtain ⟨program, pc, stack, _ | ⟨line, calls⟩, halted, steps⟩ := m
    · exact .settle (fail_rename rfl _)
    · exact .settle rfl

/-! ## Steps -/

theorem settle_rename (o : Outcome Machine) :
    settle (o.1.mapError (ρ.faultOf named), o.2.rename ρ) =
      ((settle o).1.mapError (ρ.faultOf named), (settle o).2.rename ρ) := by
  obtain ⟨f | _ | _, m⟩ := o
  · simp only [settle, Except.mapError, Renaming.atRuntimeLine_faultOf]
    rfl
  · rfl
  · rfl

/-- The label that the instruction of the next step refers to. -/
def label? (m : Machine) : Option LabelId :=
  m.next?.bind Instruction.label?

variable {σ : Type} (console : Console σ)

theorem next?_rename (ρ : Renaming) (m : Machine) : (m.rename ρ).next? = m.next? :=
  rfl

theorem request?_rename (ρ : Renaming) (m : Machine) : (m.rename ρ).request? = m.request? :=
  request?_of_rel (next?_rename ρ m) fun i _ => exec_rename { m with steps := m.steps + 1 } i

/-- **A step does the same under other names.** -/
theorem step_rename (ρ : Renaming) (m : Machine) (s : σ) : step console (m.rename ρ) s =
    (((step console m s).1.1.mapError (ρ.faultOf m.label?), (step console m s).1.2.rename ρ),
      (step console m s).2) := by
  obtain ⟨hstep, hs⟩ := step_of_rel console s
    (S := fun r r' => r' = (r.1.mapError (ρ.faultOf m.label?), r.2.rename ρ))
    (next?_rename ρ m) rfl fun i hi => by
      have hlabel : m.label? = i.label? := by rw [label?, hi]; rfl
      rw [hlabel]
      exact (exec_rename { m with steps := m.steps + 1 } i).mono fun o _ ho =>
        (congrArg settle ho).trans (settle_rename o)
  exact Prod.ext hstep hs

/-! ## Runs -/

/-- **A run does the same under other names.** -/
theorem after_rename (ρ : Renaming) (m : Machine) (s : σ) (n : Nat) :
    after console n (m.rename ρ) s =
        ((after console n m s).1.rename ρ, (after console n m s).2) ∧
      requests console n (m.rename ρ) s = requests console n m s := by
  induction n generalizing m s with
  | zero => exact ⟨rfl, rfl⟩
  | succ n ih =>
    rw [after_step, after_step, requests, requests, step_rename, request?_rename]
    exact ⟨(ih _ _).1, congrArg _ (ih _ _).2⟩

end Machine

open Machine in
/-- **Names are arbitrary.** Under other names a listing is accepted if it was accepted before; its
program has the same instructions, entry, end and lines of labels. After every number of steps its
run has asked the same console for the same things and left it in the same state, and the machines
agree. So do the results of the next steps, but that a jump nowhere has another label to report; and
the value of a register stands under the other name. A listing that is rejected is rejected with
the same fault on the same line, under the other names. -/
theorem rename_runs_alike (ρ : Renaming) (l : Listing) :
    ((∃ p', Program.ofListing (l.rename ρ) = .ok p') ↔ ∃ p, Program.ofListing l = .ok p) ∧
    (∀ p, Program.ofListing l = .ok p → ∃ p', Program.ofListing (l.rename ρ) = .ok p' ∧
      p'.instructions = p.instructions ∧ p'.entry = p.entry ∧ p'.finish? = p.finish? ∧
      p'.symbols.labels.map Label.target = p.symbols.labels.map Label.target ∧
      ∀ {σ : Type} (console : Console σ) (s : σ) (n : Nat) (m : Machine) (t : σ),
        after console n (.start p) s = (m, t) →
        requests console n (.start p') s = requests console n (.start p) s ∧
        ∃ m', after console n (.start p') s = (m', t) ∧
          m'.pc = m.pc ∧ m'.stack = m.stack ∧ m'.calls = m.calls ∧ m'.halted = m.halted ∧
          m'.steps = m.steps ∧
          (step console m' t).1.1 = (step console m t).1.1.mapError (ρ.faultOf m.label?) ∧
          ∀ name, m'.registerValue? (ρ.register name) = m.registerValue? name) ∧
    ∀ f, Program.ofListing l = .error f →
      Program.ofListing (l.rename ρ) = .error (f.rename ρ) := by
  refine ⟨?_, fun p h => ⟨p.rename ρ, ?_, rfl, rfl, rfl, ?_, fun console s n m t hm => ?_⟩, ?_⟩
  · rw [ofListing_rename]
    cases Program.ofListing l <;> simp [Except.map, Except.mapError]
  · rw [ofListing_rename, h]
    rfl
  · simp [Program.rename, SymbolTable.rename, Function.comp_def]
  · obtain ⟨hafter, hasked⟩ := after_rename console ρ (.start p) s n
    rw [hm] at hafter
    have hresult : (step console (m.rename ρ) t).1.1 =
        (step console m t).1.1.mapError (ρ.faultOf m.label?) := by rw [step_rename]
    exact ⟨hasked, m.rename ρ, hafter, rfl, rfl, rfl, rfl, rfl, hresult,
      fun _ => SymbolTable.registerValue?_rename⟩
  · intro f h
    rw [ofListing_rename, h]
    rfl

open Machine in
/-- With two labels and two registers interchanged, the jump fails on the same line for want of the
other label. -/
theorem rename_runs_alike_interchanged :
    let ρ : Renaming := ⟨Equiv.swap ⟨"on", rfl⟩ ⟨"off", rfl⟩, Equiv.injective _,
      Equiv.swap ⟨"ax", by decide⟩ ⟨"bx", by decide⟩⟩
    let l : Listing := ⟨[⟨.begin, ""⟩, ⟨.push, "5"⟩, ⟨.popRegister, "ax"⟩, ⟨.label, "on"⟩,
      ⟨.jump, "off"⟩]⟩
    l.rename ρ = ⟨[⟨.begin, ""⟩, ⟨.push, "5"⟩, ⟨.popRegister, "bx"⟩, ⟨.label, "off"⟩,
      ⟨.jump, "on"⟩]⟩ ∧
    ∃ p p', Program.ofListing l = .ok p ∧ Program.ofListing (l.rename ρ) = .ok p' ∧
      p'.instructions = #[.begin, .push 5, .popRegister ⟨0⟩, .label ⟨0⟩, .jump ⟨1⟩] ∧
      ∃ m m', after silent 4 (.start p) () = (m, ()) ∧ after silent 4 (.start p') () = (m', ()) ∧
        (step silent m ()).1.1 = .error (.runtime 5 (.cause (.unresolvedLabel "off"))) ∧
        (step silent m' ()).1.1 = .error (.runtime 5 (.cause (.unresolvedLabel "on"))) ∧
        m.registerValue? "ax" = some 5 ∧ m'.registerValue? "bx" = some 5 := by
  intro ρ l
  let p : Program := ⟨#[.begin, .push 5, .popRegister ⟨0⟩, .label ⟨0⟩, .jump ⟨1⟩], l,
    ⟨[⟨"ax", 0⟩], [⟨"on", some 3⟩, ⟨"off", none⟩], some 0, none⟩, 0⟩
  let m : Machine := ⟨{ p with symbols := ⟨[⟨"ax", 5⟩], p.symbols.labels, some 0, none⟩ }, 4, ⟨[]⟩,
    [], false, 4⟩
  have h : Program.ofListing l = .ok p := by decide +kernel
  have hm : after silent 4 (.start p) () = (m, ()) := by decide +kernel
  have hresult : (step silent m ()).1.1 =
      .error (.runtime 5 (.cause (.unresolvedLabel "off"))) := by decide +kernel
  have hfault : ρ.faultOf m.label? (.runtime 5 (.cause (.unresolvedLabel "off"))) =
      .runtime 5 (.cause (.unresolvedLabel "on")) := by decide +kernel
  have hbx : ρ.register "ax" = "bx" := by decide +kernel
  obtain ⟨p', hp', hcode, -, -, -, hrun⟩ := (rename_runs_alike ρ l).2.1 p h
  obtain ⟨-, m', hm', -, -, -, -, -, hresult', hvalue⟩ := hrun silent () 4 m () hm
  rw [hresult, Except.mapError, hfault] at hresult'
  exact ⟨by decide +kernel, p, p', h, hp', hcode, m, m', hm, hm', hresult, hresult', rfl,
    hbx ▸ hvalue "ax"⟩

end StackMachine
