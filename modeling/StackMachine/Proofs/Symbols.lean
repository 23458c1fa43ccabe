import Mathlib.Data.List.Nodup
import StackMachine.SymbolTable

/-!
# Names and handles

A handle stands for the name at its position. Tables only ever grow at the end, so a handle keeps
its name, and names are distinct, so that different handles have different names.

* `SymbolTable.usedRegisters`, `SymbolTable.usedLabels`: the names, by handle.
* `SymbolTable.WellFormed`: the names are distinct and valid.
* `SymbolTable.Extends`: one table continues another; **handles keep their names**
  (`Extends.usedRegisters`, `Extends.usedLabels`).
* `SymbolTable.addRegister`, `SymbolTable.addLabel`: the table a look-up leaves behind;
  `register_of_mem`, `label_of_isLabelName`: a look-up yields a handle of the name in that table.
* `defineLabel_of_none`, `jumpTarget_of_none`, `readRegister_of_named`, `writeRegister_of_named`
  and their like: what an operation does to the entry of a name.
* `registerValue?_of_mem`: a register by its name.
-/

namespace StackMachine

/-! ## Entries with distinct names -/

section Entries

variable {α : Type} {f : α → String} {l : List α} {name : String} {i : Nat}

theorem getElem?_of_findIdx? (h : l.findIdx? (f · == name) = some i) :
    (l.map f)[i]? = some name := by
  obtain ⟨hi, hf, _⟩ := List.findIdx?_eq_some_iff_getElem.1 h
  rw [List.getElem?_map, List.getElem?_eq_getElem hi, Option.map_some, eq_of_beq hf]

theorem findIdx?_eq_none_iff_notMem : l.findIdx? (f · == name) = none ↔ name ∉ l.map f := by
  rw [List.findIdx?_eq_none_iff, List.mem_map]
  constructor
  · rintro h ⟨a, ha, rfl⟩
    simpa using h a ha
  · intro h a ha
    exact beq_false_of_ne fun e => h ⟨a, ha, e⟩

/-- Where names are distinct, the entry at a position is the entry of a name. -/
theorem modify_eq_map_of_nodup (hn : (l.map f).Nodup) (h : (l.map f)[i]? = some name)
    (g : α → α) : l.modify i g = l.map fun a => if f a = name then g a else a := by
  apply List.ext_getElem?
  intro j
  rw [List.getElem?_modify, List.getElem?_map]
  rcases hj : l[j]? with _ | a
  · rfl
  · have hm : (l.map f)[j]? = some (f a) := by rw [List.getElem?_map, hj, Option.map_some]
    have hij : i = j ↔ f a = name := by
      refine ⟨fun e => ?_, fun e => ?_⟩
      · rw [← e, h] at hm
        exact (Option.some.inj hm).symm
      · rw [e, ← h] at hm
        have hi : i < (l.map f).length := (List.getElem?_eq_some_iff.1 h).1
        exact (List.getElem?_inj hi hn).1 hm.symm
    by_cases e : i = j
    · simp [e, hij.1 e]
    · simp [e, mt hij.2 e]

end Entries

namespace SymbolTable

variable {t t' t'' : SymbolTable} {name : String}

/-! ## The names of a table -/

/-- The names of the registers, by handle. -/
def usedRegisters (t : SymbolTable) : List String :=
  t.registers.map Register.name

/-- The names of the labels, by handle. -/
def usedLabels (t : SymbolTable) : List String :=
  t.labels.map Label.name

/-- The names are distinct and valid. -/
structure WellFormed (t : SymbolTable) : Prop where
  registers_nodup : t.usedRegisters.Nodup
  registers_valid : ∀ name ∈ t.usedRegisters, name ∈ registerNames
  labels_nodup : t.usedLabels.Nodup
  labels_valid : ∀ name ∈ t.usedLabels, isLabelName name = true

theorem wellFormed_empty : empty.WellFormed where
  registers_nodup := List.nodup_nil
  registers_valid := by simp [usedRegisters, empty]
  labels_nodup := List.nodup_nil
  labels_valid := by simp [usedLabels, empty]

/-- The names of one table start with those of another. -/
structure Extends (t t' : SymbolTable) : Prop where
  registers : t.usedRegisters <+: t'.usedRegisters
  labels : t.usedLabels <+: t'.usedLabels

theorem Extends.refl (t : SymbolTable) : t.Extends t :=
  ⟨List.prefix_refl _, List.prefix_refl _⟩

theorem Extends.trans (h : t.Extends t') (h' : t'.Extends t'') : t.Extends t'' :=
  ⟨h.registers.trans h'.registers, h.labels.trans h'.labels⟩

/-- **A handle keeps its register.** -/
theorem Extends.usedRegisters (h : t.Extends t') {i : Nat} (hi : t.usedRegisters[i]? = some name) :
    t'.usedRegisters[i]? = some name := by
  obtain ⟨hlt, rfl⟩ := List.getElem?_eq_some_iff.1 hi
  exact List.prefix_iff_getElem?.1 h.registers i hlt

/-- **A handle keeps its label.** -/
theorem Extends.usedLabels (h : t.Extends t') {i : Nat} (hi : t.usedLabels[i]? = some name) :
    t'.usedLabels[i]? = some name := by
  obtain ⟨hlt, rfl⟩ := List.getElem?_eq_some_iff.1 hi
  exact List.prefix_iff_getElem?.1 h.labels i hlt

/-! ## Looking names up -/

/-- The table with an entry for a register. -/
def addRegister (t : SymbolTable) (name : String) : SymbolTable :=
  if name ∈ t.usedRegisters then t else { t with registers := t.registers ++ [⟨name, 0⟩] }

/-- The table with an entry for a label. -/
def addLabel (t : SymbolTable) (name : String) : SymbolTable :=
  if name ∈ t.usedLabels then t else { t with labels := t.labels ++ [⟨name, none⟩] }

/-- **Looking up a register yields a handle of it**, in a table with an entry for it. -/
theorem register_of_mem (t : SymbolTable) (h : name ∈ registerNames) :
    ∃ id, t.register name = (.ok id, t.addRegister name) ∧
      (t.addRegister name).usedRegisters[id.index]? = some name := by
  unfold register registerId? addRegister
  rw [if_pos h]
  cases hi : t.registers.findIdx? (·.name == name) with
  | none =>
    have hn : name ∉ t.usedRegisters := findIdx?_eq_none_iff_notMem.1 hi
    rw [if_neg hn]
    exact ⟨⟨t.registers.length⟩, rfl, by simp [usedRegisters]⟩
  | some i =>
    have hg : t.usedRegisters[i]? = some name := getElem?_of_findIdx? hi
    rw [if_pos (List.mem_of_getElem? hg)]
    exact ⟨⟨i⟩, rfl, hg⟩

/-- **Looking up a label yields a handle of it**, in a table with an entry for it. -/
theorem label_of_isLabelName (t : SymbolTable) (h : isLabelName name = true) :
    ∃ id, t.label name = (.ok id, t.addLabel name) ∧
      (t.addLabel name).usedLabels[id.index]? = some name := by
  unfold label labelId? addLabel
  rw [if_pos h]
  cases hi : t.labels.findIdx? (·.name == name) with
  | none =>
    have hn : name ∉ t.usedLabels := findIdx?_eq_none_iff_notMem.1 hi
    rw [if_neg hn]
    exact ⟨⟨t.labels.length⟩, rfl, by simp [usedLabels]⟩
  | some i =>
    have hg : t.usedLabels[i]? = some name := getElem?_of_findIdx? hi
    rw [if_pos (List.mem_of_getElem? hg)]
    exact ⟨⟨i⟩, rfl, hg⟩

theorem register_of_notMem (t : SymbolTable) (h : name ∉ registerNames) :
    t.register name = (.error (.invalidRegister name), t) :=
  if_neg h

theorem label_of_not_isLabelName (t : SymbolTable) (h : ¬ isLabelName name = true) :
    t.label name = (.error (.invalidLabel name), t) :=
  if_neg h

theorem usedRegisters_addRegister : (t.addRegister name).usedRegisters =
    if name ∈ t.usedRegisters then t.usedRegisters else t.usedRegisters ++ [name] := by
  unfold addRegister
  split_ifs
  · rfl
  · simp [usedRegisters]

theorem mem_usedRegisters_addRegister {n : String} :
    n ∈ (t.addRegister name).usedRegisters ↔ n ∈ t.usedRegisters ∨ n = name := by
  rw [usedRegisters_addRegister]
  split_ifs with h
  · exact ⟨Or.inl, fun hn => hn.elim id fun e => e ▸ h⟩
  · simp

theorem usedLabels_addLabel : (t.addLabel name).usedLabels =
    if name ∈ t.usedLabels then t.usedLabels else t.usedLabels ++ [name] := by
  unfold addLabel
  split_ifs
  · rfl
  · simp [usedLabels]

theorem mem_usedLabels_addLabel {n : String} :
    n ∈ (t.addLabel name).usedLabels ↔ n ∈ t.usedLabels ∨ n = name := by
  rw [usedLabels_addLabel]
  split_ifs with h
  · exact ⟨Or.inl, fun hn => hn.elim id fun e => e ▸ h⟩
  · simp

@[simp] theorem labels_addRegister : (t.addRegister name).labels = t.labels := by
  unfold addRegister; split_ifs <;> rfl

@[simp] theorem begin_addRegister : (t.addRegister name).begin = t.begin := by
  unfold addRegister; split_ifs <;> rfl

@[simp] theorem finish_addRegister : (t.addRegister name).finish = t.finish := by
  unfold addRegister; split_ifs <;> rfl

@[simp] theorem registers_addLabel : (t.addLabel name).registers = t.registers := by
  unfold addLabel; split_ifs <;> rfl

@[simp] theorem begin_addLabel : (t.addLabel name).begin = t.begin := by
  unfold addLabel; split_ifs <;> rfl

@[simp] theorem finish_addLabel : (t.addLabel name).finish = t.finish := by
  unfold addLabel; split_ifs <;> rfl

theorem extends_addRegister : t.Extends (t.addRegister name) := by
  refine ⟨?_, by simp [usedLabels]⟩
  rw [usedRegisters_addRegister]
  split_ifs
  · exact List.prefix_refl _
  · exact List.prefix_append _ _

theorem extends_addLabel : t.Extends (t.addLabel name) := by
  refine ⟨by simp [usedRegisters], ?_⟩
  rw [usedLabels_addLabel]
  split_ifs
  · exact List.prefix_refl _
  · exact List.prefix_append _ _

theorem WellFormed.addRegister (h : t.WellFormed) (hv : name ∈ registerNames) :
    (t.addRegister name).WellFormed where
  registers_nodup := by
    rw [usedRegisters_addRegister]
    split_ifs with hn
    · exact h.registers_nodup
    · exact List.concat_eq_append ▸ h.registers_nodup.concat hn
  registers_valid n hn := (mem_usedRegisters_addRegister.1 hn).elim (h.registers_valid n) (· ▸ hv)
  labels_nodup := by simpa [usedLabels] using h.labels_nodup
  labels_valid := by simpa [usedLabels] using h.labels_valid

theorem WellFormed.addLabel (h : t.WellFormed) (hv : isLabelName name = true) :
    (t.addLabel name).WellFormed where
  registers_nodup := by simpa [usedRegisters] using h.registers_nodup
  registers_valid := by simpa [usedRegisters] using h.registers_valid
  labels_nodup := by
    rw [usedLabels_addLabel]
    split_ifs with hn
    · exact h.labels_nodup
    · exact List.concat_eq_append ▸ h.labels_nodup.concat hn
  labels_valid n hn := (mem_usedLabels_addLabel.1 hn).elim (h.labels_valid n) (· ▸ hv)

/-! ## Begin and end -/

theorem markBegin_of_none (h : t.begin = none) (line : Nat) :
    t.markBegin line = (.ok (), { t with begin := some line }) := by
  rw [markBegin, h]

theorem markBegin_of_some {first : Nat} (h : t.begin = some first) (line : Nat) :
    t.markBegin line = (.error (.duplicateBegin (first + 1)), t) := by
  rw [markBegin, h]

theorem markEnd_of_none (h : t.finish = none) (line : Nat) :
    t.markEnd line = (.ok (), { t with finish := some line }) := by
  rw [markEnd, h]

theorem markEnd_of_some {first : Nat} (h : t.finish = some first) (line : Nat) :
    t.markEnd line = (.error (.duplicateEnd (first + 1)), t) := by
  rw [markEnd, h]

/-! ## The entry of a name -/

section Named

variable {id : LabelId} {reg : RegisterId}

/-- The table in which a label is defined on a line. -/
def setTarget (t : SymbolTable) (name : String) (line : Nat) : SymbolTable :=
  { t with
    labels := t.labels.map fun l => if l.name = name then { l with target := some line } else l }

/-- The table in which a register has a value. -/
def setValue (t : SymbolTable) (name : String) (value : Int64) : SymbolTable :=
  { t with registers := t.registers.map fun r => if r.name = name then { r with value } else r }

@[simp] theorem usedLabels_setTarget (line : Nat) :
    (t.setTarget name line).usedLabels = t.usedLabels := by
  unfold usedLabels setTarget
  rw [List.map_map]
  refine List.map_congr_left fun l _ => ?_
  rw [Function.comp_apply]
  split_ifs <;> rfl

theorem extends_setTarget (line : Nat) : t.Extends (t.setTarget name line) :=
  ⟨List.prefix_refl _, (usedLabels_setTarget line).symm ▸ List.prefix_refl _⟩

theorem exists_label_of_named (h : t.usedLabels[id.index]? = some name) :
    ∃ l ∈ t.labels, l.name = name ∧ t.labels[id.index]? = some l := by
  rw [usedLabels, List.getElem?_map] at h
  obtain ⟨l, hl, e⟩ := Option.map_eq_some_iff.1 h
  exact ⟨l, List.mem_of_getElem? hl, e, hl⟩

theorem exists_register_of_named (h : t.usedRegisters[reg.index]? = some name) :
    ∃ r ∈ t.registers, r.name = name ∧ t.registers[reg.index]? = some r := by
  rw [usedRegisters, List.getElem?_map] at h
  obtain ⟨r, hr, e⟩ := Option.map_eq_some_iff.1 h
  exact ⟨r, List.mem_of_getElem? hr, e, hr⟩

theorem hasLabel_of_named (h : t.usedLabels[id.index]? = some name) : t.hasLabel id = true := by
  simpa [hasLabel, usedLabels] using (List.getElem?_eq_some_iff.1 h).1

theorem hasRegister_of_named (h : t.usedRegisters[reg.index]? = some name) :
    t.hasRegister reg = true := by
  simpa [hasRegister, usedRegisters] using (List.getElem?_eq_some_iff.1 h).1

theorem labelTarget?_of_named (h : t.usedLabels[id.index]? = some name) :
    ∃ l ∈ t.labels, l.name = name ∧ t.labelTarget? id = l.target := by
  obtain ⟨l, hm, e, hl⟩ := exists_label_of_named h
  exact ⟨l, hm, e, by rw [labelTarget?, hl, Option.bind_some]⟩

theorem labelName_of_named (h : t.usedLabels[id.index]? = some name) : t.labelName id = name := by
  obtain ⟨l, _, e, hl⟩ := exists_label_of_named h
  rw [labelName, hl, ← e]

theorem defineLabel_of_none (hw : t.WellFormed) (h : t.usedLabels[id.index]? = some name)
    (ht : t.labelTarget? id = none) (line : Nat) :
    t.defineLabel id line = (.ok (), t.setTarget name line) := by
  rw [defineLabel, ht, modify_eq_map_of_nodup hw.labels_nodup h]
  rfl

theorem defineLabel_of_some (h : t.usedLabels[id.index]? = some name) {first : Nat}
    (ht : t.labelTarget? id = some first) (line : Nat) :
    t.defineLabel id line = (.error (.duplicateLabel name (first + 1)), t) := by
  rw [defineLabel, ht, labelName_of_named h]

theorem jumpTarget_of_none (h : t.usedLabels[id.index]? = some name)
    (ht : t.labelTarget? id = none) : t.jumpTarget id = .error (.unresolvedLabel name) := by
  rw [jumpTarget, ht, labelName_of_named h]

theorem jumpTarget_of_some {line : Nat} (ht : t.labelTarget? id = some line) :
    t.jumpTarget id = .ok line := by
  rw [jumpTarget, ht]

theorem readRegister_of_named (h : t.usedRegisters[reg.index]? = some name) :
    ∃ r ∈ t.registers, r.name = name ∧ t.readRegister reg = r.value := by
  obtain ⟨r, hm, e, hr⟩ := exists_register_of_named h
  exact ⟨r, hm, e, by rw [readRegister, hr]⟩

/-- Writing through a handle changes the value of its register and no other. -/
theorem writeRegister_of_named (hw : t.WellFormed) (h : t.usedRegisters[reg.index]? = some name)
    (value : Int64) : t.writeRegister reg value = t.setValue name value := by
  unfold writeRegister setValue
  rw [modify_eq_map_of_nodup hw.registers_nodup h]

end Named

/-! ## Values by name -/

theorem registerValue?_eq_none_iff : t.registerValue? name = none ↔ name ∉ t.usedRegisters := by
  rw [registerValue?, Option.map_eq_none_iff, List.find?_eq_none, usedRegisters, List.mem_map]
  simp

/-- A register is found by its name. -/
theorem registerValue?_of_mem (hw : t.WellFormed) {e : Register} (he : e ∈ t.registers) :
    t.registerValue? e.name = some e.value := by
  obtain ⟨e', he'⟩ : ∃ e', t.registers.find? (·.name == e.name) = some e' :=
    Option.isSome_iff_exists.1 (List.find?_isSome.2 ⟨e, he, beq_self_eq_true e.name⟩)
  have hname : e'.name = e.name := by simpa using List.find?_some he'
  have hmem : e' ∈ t.registers := List.mem_of_find?_eq_some he'
  rw [registerValue?, he', List.inj_on_of_nodup_map hw.registers_nodup hmem he hname,
    Option.map_some]

end SymbolTable

end StackMachine
