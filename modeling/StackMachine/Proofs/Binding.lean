import StackMachine.Proofs.Operands

/-!
# Binding a record

Records are bound one after another, and the table that grows on the way is described by the
records bound so far: which names they use, where they define their labels, where they begin and
end.

* `Admissible`: a record fits, and no earlier record is in its way; `LineFault`: what is wrong
  with one that is not.
* `Describes`: the table of the records bound so far.
* **`bind_admissible`**, **`bind_not_admissible`**: in that table a record is bound exactly when it
  is admissible.
-/

namespace StackMachine

/-! ## Lines in their context -/

/-- Two records that cannot stand in one listing. -/
def Record.Clashes (r r' : Record) : Prop :=
  r.opcode = r'.opcode ∧
    (r.opcode = .begin ∨ r.opcode = .finish ∨ r.opcode = .label ∧ r.operand = r'.operand)

/-- A record that can stand behind some earlier records. -/
def Admissible (earlier : List Record) (r : Record) : Prop :=
  r.Fits ∧ ∀ r' ∈ earlier, ¬ r'.Clashes r

instance (r r' : Record) : Decidable (r.Clashes r') :=
  inferInstanceAs (Decidable (_ ∧ _))

instance (earlier : List Record) (r : Record) : Decidable (Admissible earlier r) :=
  inferInstanceAs (Decidable (_ ∧ _))

/-- The fault of a record that clashes with the record on a line, counted from 1. -/
def Record.duplicate (r : Record) (first : Nat) : Cause :=
  match r.opcode with
  | .begin => .duplicateBegin first
  | .finish => .duplicateEnd first
  | _ => .duplicateLabel r.operand first

/-- What is wrong with a record that cannot stand where it stands. The shape of its operand is
looked at first; a duplicate carries the line of the earlier record. -/
inductive LineFault (earlier : List Record) (r : Record) : Cause → Prop
  | operand {c : Cause} : ¬ r.Fits → r.OperandFault c → LineFault earlier r c
  | clash {first : Nat} {r' : Record} : r.Fits → earlier[first]? = some r' → r'.Clashes r →
      LineFault earlier r (r.duplicate (first + 1))

/-- The first line with an opcode. -/
def opcodeLine? (rs : List Record) (o : Opcode) : Option Nat :=
  rs.findIdx? (·.opcode == o)

/-- The line that defines a label. -/
def labelLine? (rs : List Record) (name : String) : Option Nat :=
  rs.findIdx? (· == ⟨.label, name⟩)

variable {rs : List Record} {r : Record} {t t' : SymbolTable} {i : Instruction} {o : Opcode}
  {name : String}

@[simp] theorem opcodeLine?_append_singleton :
    opcodeLine? (rs ++ [r]) o =
      (opcodeLine? rs o).or (if r.opcode = o then some rs.length else none) := by
  unfold opcodeLine?
  rw [List.findIdx?_append, List.findIdx?_singleton]
  split_ifs <;> simp_all

@[simp] theorem labelLine?_append_singleton :
    labelLine? (rs ++ [r]) name =
      (labelLine? rs name).or (if r = ⟨.label, name⟩ then some rs.length else none) := by
  unfold labelLine?
  rw [List.findIdx?_append, List.findIdx?_singleton]
  split_ifs <;> simp_all

/-! ## The table of a list of records -/

/-- The table holds the names that the records use, and the lines that they define. -/
structure Describes (rs : List Record) (t : SymbolTable) : Prop extends t.WellFormed where
  mem_usedRegisters : ∀ {name}, name ∈ t.usedRegisters ↔ ∃ r ∈ rs, r.registerName? = some name
  value : ∀ e ∈ t.registers, e.value = 0
  mem_usedLabels : ∀ {name}, name ∈ t.usedLabels ↔ ∃ r ∈ rs, r.labelName? = some name
  target : ∀ l ∈ t.labels, l.target = labelLine? rs l.name
  begin : t.begin = opcodeLine? rs .begin
  finish : t.finish = opcodeLine? rs .finish

theorem describes_empty : Describes [] .empty where
  toWellFormed := SymbolTable.wellFormed_empty
  mem_usedRegisters := by simp [SymbolTable.usedRegisters, SymbolTable.empty]
  value := by simp [SymbolTable.empty]
  mem_usedLabels := by simp [SymbolTable.usedLabels, SymbolTable.empty]
  target := by simp [SymbolTable.empty]
  begin := rfl
  finish := rfl

theorem opcodeLine?_eq_none_iff : opcodeLine? rs o = none ↔ ∀ r ∈ rs, r.opcode ≠ o := by
  simp [opcodeLine?, List.findIdx?_eq_none_iff]

theorem labelLine?_eq_none_iff : labelLine? rs name = none ↔ ⟨.label, name⟩ ∉ rs := by
  simp only [labelLine?, List.findIdx?_eq_none_iff, beq_eq_false_iff_ne]
  exact ⟨fun h hm => h _ hm rfl, fun h r hr e => h (e ▸ hr)⟩

theorem exists_of_opcodeLine? {k : Nat} (h : opcodeLine? rs o = some k) :
    ∃ r, rs[k]? = some r ∧ r.opcode = o := by
  obtain ⟨hk, hp, _⟩ := List.findIdx?_eq_some_iff_getElem.1 h
  exact ⟨_, List.getElem?_eq_getElem hk, eq_of_beq hp⟩

theorem getElem?_of_labelLine? {k : Nat} (h : labelLine? rs name = some k) :
    rs[k]? = some ⟨.label, name⟩ := by
  obtain ⟨hk, hp, _⟩ := List.findIdx?_eq_some_iff_getElem.1 h
  rw [List.getElem?_eq_getElem hk, eq_of_beq hp]

namespace Describes

/-- A label that is added has no line yet, and none of the records defines it. -/
theorem target_addNames (h : Describes rs t) :
    ∀ l ∈ (t.addNames r).labels, l.target = labelLine? rs l.name := by
  intro l hl
  rcases SymbolTable.mem_labels_addNames hl with hl | ⟨ht, hn⟩
  · exact h.target l hl
  · rw [ht, eq_comm, labelLine?_eq_none_iff]
    intro hm
    exact hn (h.mem_usedLabels.2 ⟨_, hm, by simp [Record.labelName?, Opcode.shape]⟩)

theorem snoc (h : Describes rs t) (hr : r.Fits)
    (registers : t'.registers = (t.addNames r).registers)
    (labels : t'.usedLabels = (t.addNames r).usedLabels)
    (target : ∀ l ∈ t'.labels, l.target = labelLine? (rs ++ [r]) l.name)
    (begin : t'.begin = opcodeLine? (rs ++ [r]) .begin)
    (finish : t'.finish = opcodeLine? (rs ++ [r]) .finish) : Describes (rs ++ [r]) t' := by
  have hw := h.toWellFormed.addNames hr
  have hregs : t'.usedRegisters = (t.addNames r).usedRegisters :=
    congrArg (List.map Register.name) registers
  refine ⟨⟨?_, ?_, ?_, ?_⟩, ?_, ?_, ?_, target, begin, finish⟩
  · rw [hregs]; exact hw.registers_nodup
  · rw [hregs]; exact hw.registers_valid
  · rw [labels]; exact hw.labels_nodup
  · rw [labels]; exact hw.labels_valid
  · intro name
    rw [hregs, SymbolTable.mem_usedRegisters_addNames, h.mem_usedRegisters]
    simp [or_and_right, exists_or]
  · intro e he
    rw [registers] at he
    exact (SymbolTable.mem_registers_addNames he).elim (h.value e) id
  · intro name
    rw [labels, SymbolTable.mem_usedLabels_addNames, h.mem_usedLabels]
    simp [or_and_right, exists_or]

theorem snoc_addNames (h : Describes rs t) (hr : r.Fits) (hb : r.opcode ≠ .begin)
    (hf : r.opcode ≠ .finish) (hl : r.opcode ≠ .label) : Describes (rs ++ [r]) (t.addNames r) := by
  refine h.snoc hr rfl rfl (fun l hm => ?_) ?_ ?_
  · have hne : r ≠ ⟨.label, l.name⟩ := fun e => hl (congrArg Record.opcode e)
    rw [labelLine?_append_singleton, if_neg hne, Option.or_none]
    exact h.target_addNames l hm
  · simp [hb, h.begin]
  · simp [hf, h.finish]

theorem labelTarget?_addNames (h : Describes rs t) {id : LabelId}
    (hn : (t.addNames r).usedLabels[id.index]? = some name) :
    (t.addNames r).labelTarget? id = labelLine? rs name := by
  obtain ⟨l, hm, rfl, ht⟩ := SymbolTable.labelTarget?_of_named hn
  rw [ht, h.target_addNames l hm]

theorem labelTarget? (h : Describes rs t) {id : LabelId}
    (hn : t.usedLabels[id.index]? = some name) : t.labelTarget? id = labelLine? rs name := by
  obtain ⟨l, hm, rfl, ht⟩ := SymbolTable.labelTarget?_of_named hn
  rw [ht, h.target l hm]

end Describes

/-! ## Binding one record -/

namespace Instruction

theorem record_admissible (h : Describes rs t) (ha : Admissible rs r)
    (hi : Binds (t.addNames r) r i) :
    ∃ t', record (t.addNames r) rs.length i = (.ok (), t') ∧ Describes (rs ++ [r]) t' ∧
      t.Extends t' ∧ Binds t' r i := by
  have hx : t.Extends (t.addNames r) := SymbolTable.extends_addNames
  cases hi with
  | begin =>
    have hn : opcodeLine? rs .begin = none := opcodeLine?_eq_none_iff.2 fun r' hr' e =>
      ha.2 r' hr' ⟨e, Or.inl e⟩
    have hd : (t.addNames ⟨.begin, ""⟩).begin = none := by
      rw [SymbolTable.begin_addNames, h.begin, hn]
    refine ⟨_, SymbolTable.markBegin_of_none hd _, h.snoc ha.1 rfl rfl (fun l hm => ?_) ?_ ?_,
      ⟨hx.registers, hx.labels⟩, .begin⟩
    · simpa using h.target_addNames l hm
    · simp [hn]
    · simp [h.finish]
  | finish =>
    have hn : opcodeLine? rs .finish = none := opcodeLine?_eq_none_iff.2 fun r' hr' e =>
      ha.2 r' hr' ⟨e, Or.inr (Or.inl e)⟩
    have hd : (t.addNames ⟨.finish, ""⟩).finish = none := by
      rw [SymbolTable.finish_addNames, h.finish, hn]
    refine ⟨_, SymbolTable.markEnd_of_none hd _, h.snoc ha.1 rfl rfl (fun l hm => ?_) ?_ ?_,
      ⟨hx.registers, hx.labels⟩, .finish⟩
    · simpa using h.target_addNames l hm
    · simp [h.begin]
    · simp [hn]
  | @label name id hid =>
    -- the entry may be there already, added by a jump; its line is not
    have hn : labelLine? rs name = none := labelLine?_eq_none_iff.2 fun hm =>
      ha.2 _ hm ⟨rfl, Or.inr (Or.inr ⟨rfl, rfl⟩)⟩
    have hd := SymbolTable.defineLabel_of_none (h.toWellFormed.addNames ha.1) hid
      ((h.labelTarget?_addNames hid).trans hn) rs.length
    refine ⟨_, hd, h.snoc ha.1 rfl (SymbolTable.usedLabels_setTarget _) (fun l hm => ?_) ?_ ?_,
      hx.trans (SymbolTable.extends_setTarget _), .label ?_⟩
    · obtain ⟨l', hl', rfl⟩ := List.mem_map.1 hm
      have ht := h.target_addNames l' hl'
      by_cases e : l'.name = name
      · simp [e, hn]
      · simp [e, ht, Ne.symm e]
    · simp [SymbolTable.setTarget, h.begin]
    · simp [SymbolTable.setTarget, h.finish]
    · rw [SymbolTable.usedLabels_setTarget]; exact hid
  | _ =>
    refine ⟨_, rfl, h.snoc_addNames ha.1 ?_ ?_ ?_, hx, ?_⟩
    all_goals first | simp | (constructor; assumption) | constructor

theorem record_clash (h : Describes rs t) (hr : r.Fits) (hc : ∃ r' ∈ rs, r'.Clashes r)
    (hi : Binds (t.addNames r) r i) :
    ∃ c t', record (t.addNames r) rs.length i = (.error c, t') ∧ LineFault rs r c := by
  obtain ⟨r', hm, ho, hc⟩ := hc
  cases hi with
  | begin =>
    cases hb : opcodeLine? rs .begin with
    | none => exact absurd ho (opcodeLine?_eq_none_iff.1 hb r' hm)
    | some first =>
      obtain ⟨r'', hf, e⟩ := exists_of_opcodeLine? hb
      have hd : (t.addNames ⟨.begin, ""⟩).begin = some first := by
        rw [SymbolTable.begin_addNames, h.begin, hb]
      exact ⟨_, _, SymbolTable.markBegin_of_some hd _, .clash hr hf ⟨e, Or.inl e⟩⟩
  | finish =>
    cases hb : opcodeLine? rs .finish with
    | none => exact absurd ho (opcodeLine?_eq_none_iff.1 hb r' hm)
    | some first =>
      obtain ⟨r'', hf, e⟩ := exists_of_opcodeLine? hb
      have hd : (t.addNames ⟨.finish, ""⟩).finish = some first := by
        rw [SymbolTable.finish_addNames, h.finish, hb]
      exact ⟨_, _, SymbolTable.markEnd_of_some hd _, .clash hr hf ⟨e, Or.inr (Or.inl e)⟩⟩
  | @label name id hid =>
    have hmem : (⟨.label, name⟩ : Record) ∈ rs := by
      obtain ⟨o', text'⟩ := r'
      obtain rfl : o' = .label := ho
      have hn : text' = name := by simpa using hc
      exact hn ▸ hm
    cases hb : labelLine? rs name with
    | none => exact absurd hmem (labelLine?_eq_none_iff.1 hb)
    | some first =>
      exact ⟨_, _, SymbolTable.defineLabel_of_some hid ((h.labelTarget?_addNames hid).trans hb) _,
        .clash hr (getElem?_of_labelLine? hb) ⟨rfl, Or.inr (Or.inr ⟨rfl, rfl⟩)⟩⟩
  | _ => simp [ho] at hc

/-- **An admissible record is bound**, and the table then describes it as well. -/
theorem bind_admissible (h : Describes rs t) (ha : Admissible rs r) :
    ∃ i t', bind t r.opcode r.operand rs.length = (.ok i, t') ∧ Describes (rs ++ [r]) t' ∧
      t.Extends t' ∧ Binds t' r i := by
  obtain ⟨i, hb, hi⟩ := bindOperand_of_fits t ha.1
  obtain ⟨t', hr, hd⟩ := record_admissible h ha hi
  exact ⟨i, t', by simp only [bind, hb, hr], hd⟩

/-- **A record that is not admissible is refused** for the reason that `LineFault` gives. -/
theorem bind_not_admissible (h : Describes rs t) (ha : ¬ Admissible rs r) :
    ∃ c t', bind t r.opcode r.operand rs.length = (.error c, t') ∧ LineFault rs r c := by
  by_cases hf : r.Fits
  · have hc : ∃ r' ∈ rs, r'.Clashes r := by
      by_contra hn
      exact ha ⟨hf, fun r' hr' hc => hn ⟨r', hr', hc⟩⟩
    obtain ⟨i, hb, hi⟩ := bindOperand_of_fits t hf
    obtain ⟨c, t', hr, hl⟩ := record_clash h hf hc hi
    exact ⟨c, t', by simp only [bind, hb, hr], hl⟩
  · obtain ⟨c, hb, hc⟩ := bindOperand_of_not_fits t hf
    exact ⟨c, t, by simp only [bind, hb], .operand hf hc⟩

end Instruction

end StackMachine
