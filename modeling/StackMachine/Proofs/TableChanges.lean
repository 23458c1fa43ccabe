import StackMachine.Proofs.Operations

/-!
# What an operation changes

An operation and its answer tell what happened to the table: a name was looked up and perhaps
added, a register was written, or neither. The lines that were recorded stay.

* `Instruction.bind_cases`: an operand that is bound, or a table that is left alone.
* `SymbolTable.Event`: an operation with its answer; `Event.register?`, `Event.label?`: the name it
  looked up and the handle it found; `Event.write?`: the value it wrote.
* `RegisterChange`, `LabelChange`: everything an event can do to the registers and to the names of
  the labels; **`registerChange_apply`**, **`labelChange_apply`**.
* `Keeps`: the lines of labels, of `BEGIN` and of `END` stay.
* **`extends_run`**, **`keeps_run`**: names and lines stay until the table is cleared.
-/

namespace StackMachine

/-! ## Binding -/

section

variable {t : SymbolTable} {r : Record} {i : Instruction}

/-- A bound instruction has a handle of the register that the record names, if it names one. -/
theorem Binds.register?_cases (h : Binds t r i) :
    (∃ id, i.register? = some id ∧ r.opcode.shape = .register ∧
      t.usedRegisters[id.index]? = some r.operand) ∨
      i.register? = none ∧ r.opcode.shape ≠ .register := by
  cases h with
  | pushRegister hn | popRegister hn => exact Or.inl ⟨_, rfl, rfl, hn⟩
  | _ => exact Or.inr ⟨rfl, nofun⟩

/-- A bound instruction has a handle of the label that the record names, if it names one. -/
theorem Binds.label?_cases (h : Binds t r i) :
    (∃ id, i.label? = some id ∧ r.opcode.shape = .label ∧
      t.usedLabels[id.index]? = some r.operand) ∨
      i.label? = none ∧ r.opcode.shape ≠ .label := by
  cases h with
  | label hn | jump hn | branch _ hn | call hn => exact Or.inl ⟨_, rfl, rfl, hn⟩
  | _ => exact Or.inr ⟨rfl, nofun⟩

namespace SymbolTable

theorem registers_addNames (t : SymbolTable) (r : Record) : (t.addNames r).registers =
    if r.opcode.shape = .register then (t.addRegister r.operand).registers else t.registers := by
  unfold addNames
  cases r.opcode.shape <;> simp

theorem usedLabels_addNames (t : SymbolTable) (r : Record) : (t.addNames r).usedLabels =
    if r.opcode.shape = .label then (t.addLabel r.operand).usedLabels else t.usedLabels := by
  unfold addNames
  cases r.opcode.shape <;> simp [usedLabels]

@[simp] theorem registers_markBegin (t : SymbolTable) (line : Nat) :
    (t.markBegin line).2.registers = t.registers := by
  unfold markBegin
  split <;> rfl

@[simp] theorem registers_markEnd (t : SymbolTable) (line : Nat) :
    (t.markEnd line).2.registers = t.registers := by
  unfold markEnd
  split <;> rfl

@[simp] theorem registers_defineLabel (t : SymbolTable) (id : LabelId) (line : Nat) :
    (t.defineLabel id line).2.registers = t.registers := by
  unfold defineLabel
  split <;> rfl

@[simp] theorem registers_label (t : SymbolTable) (name : String) :
    (t.label name).2.registers = t.registers := by
  unfold label
  split_ifs
  · split <;> rfl
  · rfl

end SymbolTable

namespace Instruction

/-- Recording a line touches no register. -/
theorem registers_record (t : SymbolTable) (line : Nat) (i : Instruction) :
    (record t line i).2.registers = t.registers := by
  cases i with
  | begin => exact t.registers_markBegin line
  | finish => exact t.registers_markEnd line
  | label id => exact t.registers_defineLabel id line
  | _ => rfl

/-- **Binding leaves the table alone, or adds what the record names and records the line.** -/
theorem bind_cases (t : SymbolTable) (o : Opcode) (text : String) (line : Nat) :
    (∃ c, bind t o text line = (.error c, t)) ∨
      ∃ i t', bind t o text line = (.ok i, t') ∧ Record.Fits ⟨o, text⟩ ∧
        Binds (t.addNames ⟨o, text⟩) ⟨o, text⟩ i ∧
        record (t.addNames ⟨o, text⟩) line i = (.ok (), t') := by
  rcases hb : bind t o text line with ⟨c | i, t'⟩
  · have ht : (bind t o text line).2 = t := bind_snd_of_error (congrArg Prod.fst hb)
    rw [hb] at ht
    exact Or.inl ⟨c, congrArg _ ht⟩
  · have hfits : Record.Fits ⟨o, text⟩ := by
      by_contra hn
      obtain ⟨c, hc, -⟩ := bindOperand_of_not_fits t hn
      simp only [bind, hc] at hb
      cases hb
    obtain ⟨j, hj, hbinds⟩ := bindOperand_of_fits t hfits
    rcases hr : record (t.addNames ⟨o, text⟩) line j with ⟨c | _, t''⟩
    · simp only [bind, hj, hr] at hb
      cases hb
    · simp only [bind, hj, hr] at hb
      cases hb
      exact Or.inr ⟨i, t', rfl, hfits, hbinds, hr⟩

end Instruction

end

namespace SymbolTable

/-! ## Events -/

/-- An operation and what it answered. -/
structure Event where
  operation : Operation
  answer : Answer
  deriving DecidableEq

namespace Event

/-- The name of the register that was looked up, and its handle. -/
def register? : Event → Option (String × RegisterId)
  | ⟨.register name, .register (.ok id)⟩ => some (name, id)
  | ⟨.bind _ text _, .bound (.ok i)⟩ => i.register?.map (text, ·)
  | _ => none

/-- The name of the label that was looked up, and its handle. -/
def label? : Event → Option (String × LabelId)
  | ⟨.label name, .label (.ok id)⟩ => some (name, id)
  | ⟨.bind _ text _, .bound (.ok i)⟩ => i.label?.map (text, ·)
  | _ => none

/-- The handle that was written through, and the value. -/
def write? : Event → Option (RegisterId × Int64)
  | ⟨.writeRegister id value, .done⟩ => some (id, value)
  | _ => none

end Event

/-- What an operation does to a table, as an event. -/
def event (t : SymbolTable) (operation : Operation) : Event :=
  ⟨operation, (t.apply operation).1⟩

variable {t t' t'' : SymbolTable} {operation : Operation} {id : LabelId} {line : Nat}

/-! ## Registers -/

/-- An event looked up a register, wrote one, or left the registers alone. -/
inductive RegisterChange (t : SymbolTable) (e : Event) (t' : SymbolTable) : Prop
  | found {name : String} {id : RegisterId} : e.register? = some (name, id) → e.write? = none →
      name ∈ registerNames → t'.registers = (t.addRegister name).registers →
      t'.usedRegisters[id.index]? = some name → RegisterChange t e t'
  | written {id : RegisterId} {value : Int64} : e.register? = none →
      e.write? = some (id, value) → t.hasRegister id = true →
      t'.registers = (t.writeRegister id value).registers → RegisterChange t e t'
  | same : e.register? = none → e.write? = none → t'.registers = t.registers →
      RegisterChange t e t'

theorem usedRegisters_congr (h : t.registers = t'.registers) :
    t.usedRegisters = t'.usedRegisters :=
  congrArg (List.map Register.name) h

theorem usedRegisters_writeRegister (t : SymbolTable) (id : RegisterId) (value : Int64) :
    (t.writeRegister id value).usedRegisters = t.usedRegisters := by
  apply List.ext_getElem?
  intro i
  rw [usedRegisters, usedRegisters, List.getElem?_map, List.getElem?_map, writeRegister,
    List.getElem?_modify]
  cases t.registers[i]? with
  | none => rfl
  | some r =>
    simp only [Option.map_some, Option.map_eq_map]
    split_ifs <;> rfl

theorem registers_onRegister {id : RegisterId} {result : Answer × SymbolTable}
    (h : result.2.registers = t.registers) :
    (t.onRegister id result).2.registers = t.registers := by
  unfold onRegister
  split_ifs
  · exact h
  · rfl

theorem registers_onLabel {result : Answer × SymbolTable}
    (h : result.2.registers = t.registers) : (t.onLabel id result).2.registers = t.registers := by
  unfold onLabel
  split_ifs
  · exact h
  · rfl

/-- **What an operation can do to the registers.** -/
theorem registerChange_apply (t : SymbolTable) (h : operation ≠ .reset) :
    RegisterChange t (t.event operation) (t.apply operation).2 := by
  cases operation with
  | register name =>
    by_cases hname : name ∈ registerNames
    · obtain ⟨id, hid, hnamed⟩ := t.register_of_mem hname
      rw [event, apply, hid]
      exact .found rfl rfl hname rfl hnamed
    · rw [event, apply, t.register_of_notMem hname]
      exact .same rfl rfl rfl
  | writeRegister id value =>
    by_cases hid : t.hasRegister id = true
    · rw [event, apply, onRegister, if_pos hid]
      exact .written rfl rfl hid rfl
    · rw [event, apply, onRegister, if_neg hid]
      exact .same rfl rfl rfl
  | bind o text line =>
    obtain ⟨c, hb⟩ | ⟨i, t', hb, hfits, hbinds, hrecord⟩ := Instruction.bind_cases t o text line
    · rw [event, apply, hb]
      exact .same rfl rfl rfl
    · have hregisters : t'.registers = (t.addNames ⟨o, text⟩).registers := by
        rw [← Instruction.registers_record (t.addNames ⟨o, text⟩) line i, hrecord]
      rw [event, apply, hb]
      obtain ⟨id, hid, hshape, hnamed⟩ | ⟨hnone, hshape⟩ := hbinds.register?_cases
      · rw [← usedRegisters_congr hregisters] at hnamed
        rw [registers_addNames, if_pos hshape] at hregisters
        exact .found (congrArg (Option.map (text, ·)) hid) rfl (hfits.mem_registerNames hshape)
          hregisters hnamed
      · rw [registers_addNames, if_neg hshape] at hregisters
        exact .same (congrArg (Option.map (text, ·)) hnone) rfl hregisters
  | reset => exact absurd rfl h
  | label name => exact .same rfl rfl (t.registers_label name)
  | markBegin line => exact .same rfl rfl (t.registers_markBegin line)
  | markEnd line => exact .same rfl rfl (t.registers_markEnd line)
  | defineLabel id line => exact .same rfl rfl (registers_onLabel (t.registers_defineLabel id line))
  | labelName | labelTarget | jumpTarget => exact .same rfl rfl (registers_onLabel rfl)
  | readRegister => exact .same rfl rfl (registers_onRegister rfl)
  | _ => exact .same rfl rfl rfl

/-! ## Labels -/

/-- An event looked up a label, or left their names alone. -/
inductive LabelChange (t : SymbolTable) (e : Event) (t' : SymbolTable) : Prop
  | found {name : String} {id : LabelId} : e.label? = some (name, id) →
      isLabelName name = true → t'.usedLabels = (t.addLabel name).usedLabels →
      t'.usedLabels[id.index]? = some name → LabelChange t e t'
  | same : e.label? = none → t'.usedLabels = t.usedLabels → LabelChange t e t'

/-- **What an operation can do to the names of the labels.** -/
theorem labelChange_apply (t : SymbolTable) (h : operation ≠ .reset) :
    LabelChange t (t.event operation) (t.apply operation).2 := by
  cases operation with
  | label name =>
    by_cases hname : isLabelName name = true
    · obtain ⟨id, hid, hnamed⟩ := t.label_of_isLabelName hname
      rw [event, apply, hid]
      exact .found rfl hname rfl hnamed
    · rw [event, apply, t.label_of_not_isLabelName hname]
      exact .same rfl rfl
  | bind o text line =>
    obtain ⟨c, hb⟩ | ⟨i, t', hb, hfits, hbinds, hrecord⟩ := Instruction.bind_cases t o text line
    · rw [event, apply, hb]
      exact .same rfl rfl
    · have hlabels : t'.usedLabels = (t.addNames ⟨o, text⟩).usedLabels := by
        rw [← usedLabels_record (t.addNames ⟨o, text⟩) line i, hrecord]
      rw [event, apply, hb]
      obtain ⟨id, hid, hshape, hnamed⟩ | ⟨hnone, hshape⟩ := hbinds.label?_cases
      · rw [← hlabels] at hnamed
        rw [usedLabels_addNames, if_pos hshape] at hlabels
        exact .found (congrArg (Option.map (text, ·)) hid) (hfits.isLabelName hshape) hlabels hnamed
      · rw [usedLabels_addNames, if_neg hshape] at hlabels
        exact .same (congrArg (Option.map (text, ·)) hnone) hlabels
  | reset => exact absurd rfl h
  | register name => exact .same rfl (usedLabels_register t name)
  | markBegin line => exact .same rfl (usedLabels_markBegin t line)
  | markEnd line => exact .same rfl (usedLabels_markEnd t line)
  | defineLabel id line =>
    exact .same rfl (usedLabels_onLabel (usedLabels_defineLabel t id line))
  | readRegister | writeRegister => exact .same rfl (usedLabels_onRegister rfl)
  | labelName | labelTarget | jumpTarget => exact .same rfl (usedLabels_onLabel rfl)
  | _ => exact .same rfl rfl

/-! ## Names -/

/-- **An operation continues the table**, unless it clears it. -/
theorem extends_apply (t : SymbolTable) (h : operation ≠ .reset) :
    t.Extends (t.apply operation).2 where
  registers := by
    cases registerChange_apply t h with
    | found _ _ _ hregisters =>
      rw [usedRegisters_congr hregisters]
      exact extends_addRegister.registers
    | @written id value _ _ _ hregisters =>
      have hnames := (usedRegisters_congr hregisters).trans (t.usedRegisters_writeRegister id value)
      exact hnames ▸ List.prefix_rfl
    | same _ _ hregisters => exact usedRegisters_congr hregisters ▸ List.prefix_rfl
  labels := by
    cases labelChange_apply t h with
    | found _ _ hlabels =>
      rw [hlabels]
      exact extends_addLabel.labels
    | same _ hlabels => exact hlabels ▸ List.prefix_rfl

/-! ## Lines -/

/-- The lines that one table knows, another knows as well. -/
structure Keeps (t t' : SymbolTable) : Prop where
  target : ∀ id line, t.labelTarget? id = some line → t'.labelTarget? id = some line
  begin : ∀ line, t.begin = some line → t'.begin = some line
  finish : ∀ line, t.finish = some line → t'.finish = some line

theorem Keeps.refl (t : SymbolTable) : t.Keeps t :=
  ⟨fun _ _ h => h, fun _ h => h, fun _ h => h⟩

theorem Keeps.trans (h : t.Keeps t') (h' : t'.Keeps t'') : t.Keeps t'' :=
  ⟨fun id line hl => h'.target id line (h.target id line hl),
    fun line hl => h'.begin line (h.begin line hl),
    fun line hl => h'.finish line (h.finish line hl)⟩

/-- What happens to the registers only. -/
theorem keeps_of_eq (hlabels : t'.labels = t.labels) (hbegin : t'.begin = t.begin)
    (hfinish : t'.finish = t.finish) : t.Keeps t' := by
  refine ⟨fun id line h => ?_, fun line h => hbegin.trans h, fun line h => hfinish.trans h⟩
  rw [labelTarget?, hlabels]
  exact h

theorem keeps_addRegister (t : SymbolTable) (name : String) : t.Keeps (t.addRegister name) :=
  keeps_of_eq labels_addRegister begin_addRegister finish_addRegister

/-- A label is added behind the others. -/
theorem keeps_addLabel (t : SymbolTable) (name : String) : t.Keeps (t.addLabel name) := by
  refine ⟨fun id line h => ?_, fun line h => begin_addLabel.trans h,
    fun line h => finish_addLabel.trans h⟩
  unfold addLabel
  split_ifs
  · exact h
  · obtain ⟨l, hl, htarget⟩ := Option.bind_eq_some_iff.1 h
    refine Option.bind_eq_some_iff.2 ⟨l, ?_, htarget⟩
    exact List.getElem?_append_left (List.getElem?_eq_some_iff.1 hl).1 ▸ hl

theorem keeps_addNames (t : SymbolTable) (r : Record) : t.Keeps (t.addNames r) := by
  unfold addNames
  split
  · exact keeps_addRegister t r.operand
  · exact keeps_addLabel t r.operand
  · exact Keeps.refl t

theorem keeps_markBegin (t : SymbolTable) (line : Nat) : t.Keeps (t.markBegin line).2 := by
  cases h : t.begin with
  | none =>
    rw [markBegin_of_none h]
    refine ⟨fun _ _ hl => hl, fun line hl => ?_, fun _ hl => hl⟩
    rw [h] at hl
    cases hl
  | some first =>
    rw [markBegin_of_some h]
    exact Keeps.refl t

theorem keeps_markEnd (t : SymbolTable) (line : Nat) : t.Keeps (t.markEnd line).2 := by
  cases h : t.finish with
  | none =>
    rw [markEnd_of_none h]
    refine ⟨fun _ _ hl => hl, fun _ hl => hl, fun line hl => ?_⟩
    rw [h] at hl
    cases hl
  | some first =>
    rw [markEnd_of_some h]
    exact Keeps.refl t

/-- A label gets a line only if it has none. -/
theorem keeps_defineLabel (t : SymbolTable) (id : LabelId) (line : Nat) :
    t.Keeps (t.defineLabel id line).2 := by
  unfold defineLabel
  split
  · exact Keeps.refl t
  · next hnone =>
    refine ⟨fun other line' h => ?_, fun _ h => h, fun _ h => h⟩
    have hne : id.index ≠ other.index := by
      intro e
      rw [show id = other from congrArg LabelId.mk e, h] at hnone
      cases hnone
    rw [labelTarget?, List.getElem?_modify_ne _ _ hne]
    exact h

theorem keeps_record (t : SymbolTable) (line : Nat) (i : Instruction) :
    t.Keeps (Instruction.record t line i).2 := by
  cases i with
  | begin => exact keeps_markBegin t line
  | finish => exact keeps_markEnd t line
  | label id => exact keeps_defineLabel t id line
  | _ => exact Keeps.refl t

theorem keeps_onRegister {id : RegisterId} {result : Answer × SymbolTable}
    (h : t.Keeps result.2) : t.Keeps (t.onRegister id result).2 := by
  unfold onRegister
  split_ifs
  · exact h
  · exact Keeps.refl t

theorem keeps_onLabel {result : Answer × SymbolTable} (h : t.Keeps result.2) :
    t.Keeps (t.onLabel id result).2 := by
  unfold onLabel
  split_ifs
  · exact h
  · exact Keeps.refl t

/-- **An operation changes no line that is recorded**, unless it clears the table. -/
theorem keeps_apply (t : SymbolTable) (h : operation ≠ .reset) :
    t.Keeps (t.apply operation).2 := by
  cases operation with
  | register name =>
    by_cases hname : name ∈ registerNames
    · obtain ⟨id, hid, -⟩ := t.register_of_mem hname
      rw [apply, hid]
      exact keeps_addRegister t name
    · rw [apply, t.register_of_notMem hname]
      exact Keeps.refl t
  | label name =>
    by_cases hname : isLabelName name = true
    · obtain ⟨id, hid, -⟩ := t.label_of_isLabelName hname
      rw [apply, hid]
      exact keeps_addLabel t name
    · rw [apply, t.label_of_not_isLabelName hname]
      exact Keeps.refl t
  | readRegister | writeRegister => exact keeps_onRegister (keeps_of_eq rfl rfl rfl)
  | bind o text line =>
    obtain ⟨c, hb⟩ | ⟨i, t', hb, -, -, hrecord⟩ := Instruction.bind_cases t o text line
    · rw [apply, hb]
      exact Keeps.refl t
    · have hkeeps := keeps_record (t.addNames ⟨o, text⟩) line i
      rw [hrecord] at hkeeps
      rw [apply, hb]
      exact (keeps_addNames t ⟨o, text⟩).trans hkeeps
  | reset => exact absurd rfl h
  | markBegin line => exact keeps_markBegin t line
  | markEnd line => exact keeps_markEnd t line
  | defineLabel id line => exact keeps_onLabel (keeps_defineLabel t id line)
  | labelName | labelTarget | jumpTarget => exact keeps_onLabel (Keeps.refl t)
  | _ => exact Keeps.refl t

/-! ## All operations -/

/-- What holds of a table and the one behind an operation holds of a table and the one behind any
operations, if it can be composed. -/
theorem run_of_apply {P : SymbolTable → SymbolTable → Prop} (hrefl : ∀ t, P t t)
    (htrans : ∀ t t' t'', P t t' → P t' t'' → P t t'')
    (happly : ∀ t operation, operation ≠ .reset → P t (t.apply operation).2) (t : SymbolTable)
    {operations : List Operation} (h : .reset ∉ operations) : P t (t.run operations).2 := by
  induction operations generalizing t with
  | nil => exact hrefl t
  | cons operation rest ih =>
    obtain ⟨hne, hrest⟩ := List.ne_and_not_mem_of_not_mem_cons h
    exact htrans _ _ _ (happly t operation (Ne.symm hne)) (ih _ hrest)

/-- **Until the table is cleared, handles keep their names.** -/
theorem extends_run (t : SymbolTable) {operations : List Operation} (h : .reset ∉ operations) :
    t.Extends (t.run operations).2 :=
  run_of_apply Extends.refl (fun _ _ _ => Extends.trans) (fun t _ => extends_apply t) t h

/-- **Until the table is cleared, a line that is recorded stays.** -/
theorem keeps_run (t : SymbolTable) {operations : List Operation} (h : .reset ∉ operations) :
    t.Keeps (t.run operations).2 :=
  run_of_apply Keeps.refl (fun _ _ _ => Keeps.trans) (fun t _ => keeps_apply t) t h

end SymbolTable

end StackMachine
