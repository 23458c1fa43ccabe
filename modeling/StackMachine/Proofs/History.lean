import Mathlib.Data.List.Induction
import StackMachine.Proofs.TableChanges

/-!
# Tables and what was done to them

Everything in a table can be told from the operations since it was last cleared and from their
answers: which names there are and in which order, which handle stands for which name, and the
value of every register.

* `history`: what was done since the table was last cleared, the latest event first.
* `lastWritten`: the value that was written last through a handle.
* `RegistersFollow`, `LabelsFollow`: the entries are what the history tells; **a step**
  (`RegistersFollow.cons`, `LabelsFollow.cons`) and **all operations** (`follow_history`).
* **`table_follows_history`**: names are distinct and valid, the index of the labels is right, and
  handles, values, lines and unresolved labels are those of the history.
-/

namespace StackMachine.SymbolTable

/-! ## Histories -/

/-- What was done to a fresh table since it was last cleared, the latest event first. -/
def history (operations : List Operation) : List Event :=
  (List.zipWith Event.mk operations (Indexed.empty.run operations).1).reverse.takeWhile
    (·.operation != .reset)

/-- The value that was written last through a handle; `0` if none was. -/
def lastWritten (h : List Event) (id : RegisterId) : Int64 :=
  ((h.filterMap Event.write?).lookup id).getD 0

variable {t t' : SymbolTable} {h : List Event} {e : Event} {name : String}
  {operation : Operation}

theorem run_empty_indexed (operations : List Operation) : Indexed.empty.run operations =
    ((empty.run operations).1, (empty.run operations).2.indexed) := by
  rw [← indexed_empty, run_indexed]

theorem run_concat (operations : List Operation) (operation : Operation) :
    t.run (operations ++ [operation]) =
      ((t.run operations).1 ++ [((t.run operations).2.apply operation).1],
        ((t.run operations).2.apply operation).2) :=
  run_append t operations [operation]

/-- **Clearing starts a new history**; every other operation is put in front. -/
theorem history_concat (operations : List Operation) (operation : Operation) :
    history (operations ++ [operation]) = if operation = .reset then []
      else (empty.run operations).2.event operation :: history operations := by
  have hlength : operations.length = (empty.run operations).1.length :=
    (length_run empty operations).symm
  unfold history
  rw [run_empty_indexed, run_empty_indexed, run_concat]
  dsimp only
  rw [List.zipWith_append hlength, List.reverse_append, List.zipWith_cons_cons,
    List.zipWith_nil_left, List.reverse_singleton, List.singleton_append, List.takeWhile_cons]
  by_cases hreset : operation = .reset
  · rw [if_pos hreset, if_neg (by simp [hreset])]
  · rw [if_neg hreset, if_pos (by simpa using hreset)]
    rfl

/-! ## Names and handles -/

section

variable {ι : Type} {position : ι → Nat} {names names' : List String} {found : List (String × ι)}
  {id : ι}

theorem nodup_added (h : names.Nodup) :
    (if name ∈ names then names else names ++ [name]).Nodup := by
  split_ifs with hn
  · exact h
  · exact List.concat_eq_append ▸ h.concat hn

theorem mem_found_cons_iff (hinj : position.Injective) (hnodup : names'.Nodup)
    (hfound : ∀ n i, (n, i) ∈ found ↔ names[position i]? = some n)
    (hnames : names' = if name ∈ names then names else names ++ [name])
    (hid : names'[position id]? = some name) (n : String) (i : ι) :
    (n, i) ∈ (name, id) :: found ↔ names'[position i]? = some n := by
  rw [List.mem_cons, hfound]
  constructor
  · rintro (heq | hold)
    · cases heq
      exact hid
    · rw [hnames]
      split_ifs
      · exact hold
      · exact List.getElem?_append_left (List.getElem?_eq_some_iff.1 hold).1 ▸ hold
  · intro hnew
    by_cases hn : n = name
    · -- no other position has the name
      subst hn
      have hlt := (List.getElem?_eq_some_iff.1 hnew).1
      have hpos : position i = position id := (List.getElem?_inj hlt hnodup).1 (hnew.trans hid.symm)
      exact Or.inl (congrArg (Prod.mk n) (hinj hpos))
    · rw [hnames] at hnew
      split_ifs at hnew
      · exact Or.inr hnew
      · rw [List.getElem?_append] at hnew
        split_ifs at hnew
        · exact Or.inr hnew
        · exact absurd (List.mem_singleton.1 (List.mem_of_getElem? hnew)) hn

theorem handle_eq_iff (hinj : position.Injective) (hnodup : names.Nodup) {i i' : ι}
    {n n' : String} (hi : names[position i]? = some n) (hi' : names[position i']? = some n') :
    i = i' ↔ n = n' := by
  constructor
  · rintro rfl
    exact Option.some.inj (hi.symm.trans hi')
  · rintro rfl
    have hlt := (List.getElem?_eq_some_iff.1 hi).1
    exact hinj ((List.getElem?_inj hlt hnodup).1 (hi.trans hi'.symm))

end

theorem RegisterId.index_injective : RegisterId.index.Injective := by
  rintro ⟨i⟩ ⟨j⟩ rfl
  rfl

theorem LabelId.index_injective : LabelId.index.Injective := by
  rintro ⟨i⟩ ⟨j⟩ rfl
  rfl

/-! ## Registers -/

/-- The registers of a table are what its history tells. -/
structure RegistersFollow (h : List Event) (t : SymbolTable) : Prop where
  nodup : t.usedRegisters.Nodup
  valid : ∀ name ∈ t.usedRegisters, name ∈ registerNames
  found : ∀ name id, (name, id) ∈ h.filterMap Event.register? ↔
    t.usedRegisters[id.index]? = some name
  /-- Nothing was written through a handle without entry. -/
  written : ∀ w ∈ h.filterMap Event.write?, w.1.index < t.registers.length
  value : ∀ i r, t.registers[i]? = some r → r.value = lastWritten h ⟨i⟩

theorem lastWritten_cons_of_none (he : e.write? = none) (id : RegisterId) :
    lastWritten (e :: h) id = lastWritten h id := by
  rw [lastWritten, List.filterMap_cons_none he]
  rfl

theorem lastWritten_cons_of_some {id : RegisterId} {value : Int64}
    (he : e.write? = some (id, value)) (other : RegisterId) :
    lastWritten (e :: h) other = if other = id then value else lastWritten h other := by
  rw [lastWritten, List.filterMap_cons_some he, List.lookup_cons]
  by_cases hid : other = id
  · rw [if_pos hid, beq_iff_eq.2 hid]
    rfl
  · rw [if_neg hid, beq_eq_false_iff_ne.2 hid]
    rfl

/-- A new register has the value `0`: nothing was written through its handle. -/
theorem RegistersFollow.lastWritten_length (hf : RegistersFollow h t) :
    lastWritten h ⟨t.registers.length⟩ = 0 := by
  have hnone : (h.filterMap Event.write?).lookup ⟨t.registers.length⟩ = none := by
    rw [List.lookup_eq_none_iff]
    intro w hw
    have hlt := hf.written w hw
    rw [bne_iff_ne]
    intro heq
    rw [← heq] at hlt
    exact Nat.lt_irrefl _ hlt
  rw [lastWritten, hnone]
  rfl

theorem getElem?_addRegister {i : Nat} {r : Register}
    (hr : (t.addRegister name).registers[i]? = some r) :
    t.registers[i]? = some r ∨ i = t.registers.length ∧ r = ⟨name, 0⟩ := by
  unfold addRegister at hr
  split_ifs at hr
  · exact Or.inl hr
  · rw [List.getElem?_append] at hr
    split_ifs at hr with hi
    · exact Or.inl hr
    · rw [List.getElem?_singleton] at hr
      split_ifs at hr with hzero
      exact Or.inr ⟨by omega, (Option.some.inj hr).symm⟩

theorem RegistersFollow.cons_found (hf : RegistersFollow h t) {id : RegisterId}
    (hfound : e.register? = some (name, id)) (hwrite : e.write? = none)
    (hname : name ∈ registerNames) (hregisters : t'.registers = (t.addRegister name).registers)
    (hid : t'.usedRegisters[id.index]? = some name) : RegistersFollow (e :: h) t' := by
  have hnames : t'.usedRegisters =
      if name ∈ t.usedRegisters then t.usedRegisters else t.usedRegisters ++ [name] :=
    (usedRegisters_congr hregisters).trans usedRegisters_addRegister
  have hnodup : t'.usedRegisters.Nodup := hnames ▸ nodup_added hf.nodup
  refine ⟨hnodup, fun n hn => ?_, ?_, fun w hw => ?_, fun i r hr => ?_⟩
  · rw [usedRegisters_congr hregisters, mem_usedRegisters_addRegister] at hn
    exact hn.elim (hf.valid n) (· ▸ hname)
  · rw [List.filterMap_cons_some hfound]
    exact mem_found_cons_iff RegisterId.index_injective hnodup hf.found hnames hid
  · rw [List.filterMap_cons_none hwrite] at hw
    have hlt := hf.written w hw
    rw [hregisters, addRegister]
    split_ifs
    · exact hlt
    · rw [List.length_append]
      omega
  · rw [lastWritten_cons_of_none hwrite]
    rw [hregisters] at hr
    obtain hold | ⟨rfl, rfl⟩ := getElem?_addRegister hr
    · exact hf.value i r hold
    · exact hf.lastWritten_length.symm

theorem RegistersFollow.cons_written (hf : RegistersFollow h t) {id : RegisterId} {value : Int64}
    (hnone : e.register? = none) (hwrite : e.write? = some (id, value))
    (hid : t.hasRegister id = true)
    (hregisters : t'.registers = (t.writeRegister id value).registers) :
    RegistersFollow (e :: h) t' := by
  have hnames : t'.usedRegisters = t.usedRegisters :=
    (usedRegisters_congr hregisters).trans (t.usedRegisters_writeRegister id value)
  refine ⟨hnames ▸ hf.nodup, hnames ▸ hf.valid, ?_, ?_, fun i r hr => ?_⟩
  · rw [List.filterMap_cons_none hnone, hnames]
    exact hf.found
  · rw [List.filterMap_cons_some hwrite, hregisters, writeRegister, List.length_modify]
    exact List.forall_mem_cons.2 ⟨of_decide_eq_true hid, hf.written⟩
  · rw [lastWritten_cons_of_some hwrite]
    rw [hregisters, writeRegister, List.getElem?_modify] at hr
    obtain ⟨r', hr', rfl⟩ := Option.map_eq_some_iff.1 hr
    by_cases hi : id.index = i
    · subst hi
      rw [if_pos rfl, if_pos rfl]
    · have hne : (⟨i⟩ : RegisterId) ≠ id := fun heq => hi (congrArg RegisterId.index heq).symm
      rw [if_neg hi, if_neg hne]
      exact hf.value i r' hr'

theorem RegistersFollow.cons_same (hf : RegistersFollow h t) (hnone : e.register? = none)
    (hwrite : e.write? = none) (hregisters : t'.registers = t.registers) :
    RegistersFollow (e :: h) t' := by
  have hnames : t'.usedRegisters = t.usedRegisters := usedRegisters_congr hregisters
  refine ⟨hnames ▸ hf.nodup, hnames ▸ hf.valid, ?_, ?_, fun i r hr => ?_⟩
  · rw [List.filterMap_cons_none hnone, hnames]
    exact hf.found
  · rw [List.filterMap_cons_none hwrite, hregisters]
    exact hf.written
  · rw [lastWritten_cons_of_none hwrite]
    exact hf.value i r (hregisters ▸ hr)

/-- **After an event, the registers are again what the history tells.** -/
theorem RegistersFollow.cons (hf : RegistersFollow h t) (he : RegisterChange t e t') :
    RegistersFollow (e :: h) t' := by
  cases he with
  | found hfound hwrite hname hregisters hid =>
    exact hf.cons_found hfound hwrite hname hregisters hid
  | written hnone hwrite hid hregisters => exact hf.cons_written hnone hwrite hid hregisters
  | same hnone hwrite hregisters => exact hf.cons_same hnone hwrite hregisters

/-! ## Labels -/

/-- The labels that were looked up, in the order of their first use. -/
def labelsUsed (h : List Event) : List String :=
  ((h.filterMap Event.label?).map Prod.fst).reverse.eraseDups

/-- The names of the labels are what the history tells. -/
structure LabelsFollow (h : List Event) (t : SymbolTable) : Prop where
  nodup : t.usedLabels.Nodup
  valid : ∀ name ∈ t.usedLabels, isLabelName name = true
  found : ∀ name id, (name, id) ∈ h.filterMap Event.label? ↔ t.usedLabels[id.index]? = some name
  order : t.usedLabels = labelsUsed h

theorem eraseDups_concat (l : List String) (name : String) : (l ++ [name]).eraseDups =
    if name ∈ l.eraseDups then l.eraseDups else l.eraseDups ++ [name] := by
  rw [List.eraseDups_append, List.removeAll]
  by_cases hmem : name ∈ l
  · simp [hmem]
  · simp [hmem, List.eraseDups_cons]

/-- **After an event, the labels are again what the history tells.** -/
theorem LabelsFollow.cons (hf : LabelsFollow h t) (he : LabelChange t e t') :
    LabelsFollow (e :: h) t' := by
  cases he with
  | @found name id hfound hname hlabels hid =>
    have hnames : t'.usedLabels =
        if name ∈ t.usedLabels then t.usedLabels else t.usedLabels ++ [name] :=
      hlabels.trans usedLabels_addLabel
    have hnodup : t'.usedLabels.Nodup := hnames ▸ nodup_added hf.nodup
    refine ⟨hnodup, fun n hn => ?_, ?_, ?_⟩
    · rw [hlabels, mem_usedLabels_addLabel] at hn
      exact hn.elim (hf.valid n) (· ▸ hname)
    · rw [List.filterMap_cons_some hfound]
      exact mem_found_cons_iff LabelId.index_injective hnodup hf.found hnames hid
    · rw [labelsUsed, List.filterMap_cons_some hfound, List.map_cons, List.reverse_cons,
        eraseDups_concat, hnames, hf.order, labelsUsed]
  | same hnone hlabels =>
    refine ⟨hlabels ▸ hf.nodup, hlabels ▸ hf.valid, ?_, ?_⟩
    · rw [List.filterMap_cons_none hnone, hlabels]
      exact hf.found
    · rw [labelsUsed, List.filterMap_cons_none hnone, hlabels]
      exact hf.order

/-! ## All operations -/

/-- **Behind any operations, a table is what its history tells.** -/
theorem follow_history (operations : List Operation) :
    RegistersFollow (history operations) (empty.run operations).2 ∧
      LabelsFollow (history operations) (empty.run operations).2 := by
  have hempty : RegistersFollow [] empty ∧ LabelsFollow [] empty := by
    refine ⟨⟨List.nodup_nil, nofun, ?_, nofun, nofun⟩, ⟨List.nodup_nil, nofun, ?_, rfl⟩⟩ <;>
      simp [usedRegisters, usedLabels, empty]
  induction operations using List.reverseRecOn with
  | nil => exact hempty
  | append_singleton operations operation ih =>
    rw [history_concat, run_concat]
    split_ifs with hreset
    · rw [hreset]
      exact hempty
    · exact ⟨ih.1.cons (registerChange_apply _ hreset), ih.2.cons (labelChange_apply _ hreset)⟩

/-! ## Labels by name -/

theorem labelId?_eq_some_iff (hnodup : t.usedLabels.Nodup) {id : LabelId} :
    t.labelId? name = some id ↔ t.usedLabels[id.index]? = some name := by
  have hnamed : ∀ i, t.labelId? name = some i → t.usedLabels[i.index]? = some name := by
    intro i hi
    obtain ⟨j, hj, rfl⟩ := Option.map_eq_some_iff.1 hi
    exact getElem?_of_findIdx? hj
  refine ⟨hnamed id, fun hid => ?_⟩
  cases hi : t.labelId? name with
  | none =>
    have hn : name ∉ t.usedLabels := findIdx?_eq_none_iff_notMem.1 (Option.map_eq_none_iff.1 hi)
    exact absurd (List.mem_of_getElem? hid) hn
  | some i =>
    exact congrArg some ((handle_eq_iff LabelId.index_injective hnodup (hnamed i hi) hid).2 rfl)

theorem labelTarget?_of_getElem? {i : Nat} {l : Label} (hl : t.labels[i]? = some l) :
    t.labelTarget? ⟨i⟩ = l.target := by
  rw [labelTarget?, hl, Option.bind_some]

theorem unresolvedLabels_eq (hnodup : t.usedLabels.Nodup) : t.unresolvedLabels =
    t.usedLabels.filter fun name => ((t.labelId? name).bind t.labelTarget?).isNone := by
  rw [unresolvedLabels, usedLabels, List.filter_map]
  refine congrArg (List.map Label.name) (List.filter_congr fun l hl => ?_)
  obtain ⟨i, hi⟩ := List.mem_iff_getElem?.1 hl
  have hname : t.usedLabels[i]? = some l.name := by rw [usedLabels, List.getElem?_map, hi]; rfl
  have hid : t.labelId? l.name = some ⟨i⟩ := (labelId?_eq_some_iff hnodup).2 hname
  rw [Function.comp_apply, hid, Option.bind_some, labelTarget?_of_getElem? hi]

/-! ## Registers by name -/

theorem registerValue?_of_found (hw : t.WellFormed) (hf : RegistersFollow h t) {id : RegisterId}
    (hfound : (name, id) ∈ h.filterMap Event.register?) :
    t.registerValue? name = some (lastWritten h id) := by
  obtain ⟨r, hr, rfl, hid⟩ := exists_register_of_named ((hf.found name id).1 hfound)
  rw [registerValue?_of_mem hw hr, hf.value id.index r hid]

theorem registerValue?_of_not_found (hf : RegistersFollow h t)
    (hnone : ∀ id, (name, id) ∉ h.filterMap Event.register?) : t.registerValue? name = none := by
  rw [registerValue?_eq_none_iff]
  intro hmem
  obtain ⟨i, hi⟩ := List.mem_iff_getElem?.1 hmem
  exact hnone ⟨i⟩ ((hf.found name ⟨i⟩).2 hi)

/-- **A table is what was done to it.** Behind any operations, handles of earlier tables included,
the names of registers and of labels are distinct and valid, and the index has every label at its
position and nothing else.

What was looked up since the table was last cleared is in it: a handle has an entry with the name
that it was found for, so that two look-ups found the same handle exactly if their names are the
same, and every entry was looked up. The names of handles and the lines of labels, of `BEGIN` and of
`END` stay until the table is cleared again. The unresolved labels are those without a line, in the
order of their first use, and the value of a register is the one that was written last through its
handle, `0` if none was; a register that was not looked up has no value. -/
theorem table_follows_history (operations : List Operation) :
    let x := (Indexed.empty.run operations).2
    let t := x.table
    let h := history operations
    t.WellFormed ∧ (∀ name id, x.index name = some id ↔ t.usedLabels[id.index]? = some name) ∧
    (∀ name id, (name, id) ∈ h.filterMap Event.register? ↔
      t.usedRegisters[id.index]? = some name) ∧
    (∀ name id, (name, id) ∈ h.filterMap Event.label? ↔ t.usedLabels[id.index]? = some name) ∧
    (∀ name id name' id', (name, id) ∈ h.filterMap Event.register? →
      (name', id') ∈ h.filterMap Event.register? → (id = id' ↔ name = name')) ∧
    (∀ name id name' id', (name, id) ∈ h.filterMap Event.label? →
      (name', id') ∈ h.filterMap Event.label? → (id = id' ↔ name = name')) ∧
    (∀ more, .reset ∉ more → t.Extends (x.run more).2.table ∧ t.Keeps (x.run more).2.table) ∧
    (t.unresolvedLabels =
      (labelsUsed h).filter fun name => ((x.index name).bind t.labelTarget?).isNone) ∧
    (∀ name id, (name, id) ∈ h.filterMap Event.register? →
      t.registerValue? name = some (lastWritten h id)) ∧
    ∀ name, (∀ id, (name, id) ∉ h.filterMap Event.register?) → t.registerValue? name = none := by
  intro x t h
  obtain ⟨hregisters, hlabels⟩ := follow_history operations
  have hx : x = (empty.run operations).2.indexed := congrArg Prod.snd (run_empty_indexed operations)
  have ht : t = (empty.run operations).2 := congrArg Indexed.table hx
  rw [← ht] at hx hregisters hlabels
  have hw : t.WellFormed :=
    ⟨hregisters.nodup, hregisters.valid, hlabels.nodup, hlabels.valid⟩
  have hindex : x.index = t.labelId? := congrArg Indexed.index hx
  refine ⟨hw, fun name id => ?_, hregisters.found, hlabels.found, fun name id name' id' hn hn' => ?_,
    fun name id name' id' hn hn' => ?_, fun more hmore => ?_, ?_,
    fun name id => registerValue?_of_found hw hregisters,
    fun name => registerValue?_of_not_found hregisters⟩
  · rw [hindex]
    exact labelId?_eq_some_iff hlabels.nodup
  · exact handle_eq_iff RegisterId.index_injective hregisters.nodup ((hregisters.found _ _).1 hn)
      ((hregisters.found _ _).1 hn')
  · exact handle_eq_iff LabelId.index_injective hlabels.nodup ((hlabels.found _ _).1 hn)
      ((hlabels.found _ _).1 hn')
  · rw [hx, run_indexed]
    exact ⟨extends_run t hmore, keeps_run t hmore⟩
  · rw [hindex, ← hlabels.order]
    exact unresolvedLabels_eq hlabels.nodup

/-- A handle from before the table was cleared, written through where it has an entry again and
where it has none; a label that is used first and defined later, and twice. -/
theorem table_follows_history_cleared :
    let operations : List Operation := [.register "bx", .label "z", .reset, .register "ax",
      .writeRegister ⟨0⟩ 7, .writeRegister ⟨1⟩ 9, .bind .jump "b" 0, .bind .label "a" 3,
      .bind .call "c" 4]
    let more : List Operation := [.bind .label "a" 5, .markBegin 2, .register "cx"]
    let x := (Indexed.empty.run operations).2
    let h := history operations
    h.filterMap Event.register? = [("ax", ⟨0⟩)] ∧
      h.filterMap Event.label? = [("c", ⟨2⟩), ("a", ⟨1⟩), ("b", ⟨0⟩)] ∧
      x.index "a" = some ⟨1⟩ ∧ x.table.labelTarget? ⟨1⟩ = some 3 ∧
      (x.run more).2.table.labelTarget? ⟨1⟩ = some 3 ∧
      (x.run more).2.table.usedLabels[1]? = some "a" ∧
      x.table.unresolvedLabels = ["b", "c"] ∧ x.table.registerValue? "ax" = some 7 ∧
      x.table.registerValue? "bx" = none := by
  intro operations more x h
  have hregisters : h.filterMap Event.register? = [("ax", ⟨0⟩)] := by decide +kernel
  have hlabels : h.filterMap Event.label? = [("c", ⟨2⟩), ("a", ⟨1⟩), ("b", ⟨0⟩)] := by
    decide +kernel
  have htarget : x.table.labelTarget? ⟨1⟩ = some 3 := by decide +kernel
  obtain ⟨-, hindex, -, hfound, -, -, hstays, hunresolved, hvalue, hnone⟩ :=
    table_follows_history operations
  obtain ⟨hextends, hkeeps⟩ := hstays more (by decide)
  have hnamed : x.table.usedLabels[1]? = some "a" :=
    (hfound "a" ⟨1⟩).1 (hlabels ▸ List.mem_cons_of_mem _ List.mem_cons_self)
  refine ⟨hregisters, hlabels, (hindex _ _).2 hnamed, htarget, hkeeps.target _ _ htarget,
    hextends.usedLabels hnamed, hunresolved.trans (by decide +kernel),
    (hvalue "ax" ⟨0⟩ ?_).trans (by decide +kernel), hnone "bx" fun id hmem => ?_⟩
  · exact hregisters ▸ List.mem_cons_self
  · rw [hregisters, List.mem_singleton] at hmem
    simp at hmem

end StackMachine.SymbolTable
