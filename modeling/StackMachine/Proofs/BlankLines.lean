import Mathlib.Data.List.InsertIdx
import StackMachine.Proofs.Faults
import StackMachine.Proofs.Finishes

/-!
# Empty lines

An empty line that is inserted into a listing moves all lines behind it, and with them labels, the
entry and the lines of pending calls. Otherwise the program does what it did: a machine that comes
to the empty line takes one step more.

* `shiftLine`: where a line is found behind the insertion.
* `Program.insertBlank`, **`ofListing_insertBlank`**: the program with the line; handles stay.
* `Machine.withBlank`, `Machine.beforeBlank`: a machine on that program, in the same place as
  another one or one step behind it.
* **`exec_withBlank`**, **`step_withBlank`**, **`run_withBlank`**: instructions, steps and runs.
* **`insertBlank_runs_alike`**: runs on the two programs end alike or not at all.
-/

namespace StackMachine

/-! ## Lines -/

/-- Where a line is found once an empty line is inserted in front of line `i`. -/
def shiftLine (i k : Nat) : Nat :=
  if k < i then k else k + 1

variable {i k n : Nat} {f : Nat → Nat}

theorem shiftLine_of_lt (h : k < i) : shiftLine i k = k :=
  if_pos h

theorem shiftLine_of_le (h : i ≤ k) : shiftLine i k = k + 1 :=
  if_neg (Nat.not_lt.2 h)

/-- The line behind a moved line is the moved next line, or it is the empty one. -/
theorem shiftLine_succ (i k : Nat) :
    shiftLine i k + 1 = shiftLine i (k + 1) ∨ k + 1 = i ∧ shiftLine i k + 1 = i := by
  unfold shiftLine
  split_ifs <;> omega

/-- A program with one line more is left where the other one is. -/
theorem succ_le_shiftLine_iff {length : Nat} (h : i ≤ length) :
    length + 1 ≤ shiftLine i k ↔ length ≤ k := by
  unfold shiftLine
  split_ifs <;> omega

theorem getElem?_insertIdx_shiftLine {α : Type} (l : List α) (a : α) :
    (l.insertIdx i a)[shiftLine i k]? = l[k]? := by
  by_cases hk : k < i
  · rw [shiftLine_of_lt hk, List.getElem?_insertIdx_of_lt hk]
  · rw [shiftLine_of_le (by omega), List.getElem?_insertIdx_of_gt (by omega), Nat.add_sub_cancel]

/-! ## Tables with moved lines -/

namespace SymbolTable

variable {t t' : SymbolTable} {name : String} {label : LabelId}

/-- The table with every line moved. -/
def mapLines (f : Nat → Nat) (t : SymbolTable) : SymbolTable where
  registers := t.registers
  labels := t.labels.map fun l => { l with target := l.target.map f }
  begin := t.begin.map f
  finish := t.finish.map f

@[simp] theorem mapLines_empty : empty.mapLines f = empty := rfl

theorem register_mapLines :
    (t.mapLines f).register name = (t.register name).map id (mapLines f) := by
  have hid : (t.mapLines f).registerId? name = t.registerId? name := rfl
  unfold register
  rw [hid]
  split_ifs
  · cases t.registerId? name <;> rfl
  · rfl

theorem label_mapLines : (t.mapLines f).label name = (t.label name).map id (mapLines f) := by
  have hid : (t.mapLines f).labelId? name = t.labelId? name := by
    simp [labelId?, mapLines, List.findIdx?_map, Function.comp_def]
  unfold label
  rw [hid]
  split_ifs
  · cases t.labelId? name with
    | none => simp [mapLines]
    | some id => rfl
  · rfl

theorem labelTarget?_mapLines :
    (t.mapLines f).labelTarget? label = (t.labelTarget? label).map f := by
  simp only [labelTarget?, mapLines, List.getElem?_map]
  cases t.labels[label.index]? <;> rfl

theorem labelName_mapLines : (t.mapLines f).labelName label = t.labelName label := by
  simp only [labelName, mapLines, List.getElem?_map]
  cases t.labels[label.index]? <;> rfl

theorem jumpTarget_mapLines : (t.mapLines f).jumpTarget label = (t.jumpTarget label).map f := by
  unfold jumpTarget
  rw [labelTarget?_mapLines, labelName_mapLines]
  cases t.labelTarget? label <;> rfl

theorem defineLabel_mapLines {line : Nat} (h : t.defineLabel label line = (.ok (), t')) :
    (t.mapLines f).defineLabel label (f line) = (.ok (), t'.mapLines f) := by
  unfold defineLabel at h ⊢
  rw [labelTarget?_mapLines]
  cases ht : t.labelTarget? label with
  | some first => simp [ht] at h
  | none =>
    rw [ht] at h
    cases h
    simp only [Option.map_none, mapLines, Prod.mk.injEq, true_and, SymbolTable.mk.injEq, and_true]
    refine List.ext_getElem? fun j => ?_
    simp only [List.getElem?_modify, List.getElem?_map]
    cases t.labels[j]? with
    | none => rfl
    | some l => by_cases hj : label.index = j <;> simp [hj]

theorem markBegin_mapLines {line : Nat} (h : t.markBegin line = (.ok (), t')) :
    (t.mapLines f).markBegin (f line) = (.ok (), t'.mapLines f) := by
  cases hb : t.begin with
  | some first => simp [markBegin, hb] at h
  | none =>
    rw [markBegin, hb] at h
    cases h
    simp [markBegin, mapLines, hb]

theorem markEnd_mapLines {line : Nat} (h : t.markEnd line = (.ok (), t')) :
    (t.mapLines f).markEnd (f line) = (.ok (), t'.mapLines f) := by
  cases hb : t.finish with
  | some first => simp [markEnd, hb] at h
  | none =>
    rw [markEnd, hb] at h
    cases h
    simp [markEnd, mapLines, hb]

end SymbolTable

/-! ## Binding with moved lines -/

namespace Instruction

variable {t t' : SymbolTable} {o : Opcode} {text : String} {line : Nat} {ins : Instruction}

theorem ofOperand_map {α : Type} (make : α → Instruction) (r : Except Cause α × SymbolTable) :
    ofOperand make (r.map id (SymbolTable.mapLines f)) =
      (ofOperand make r).map id (SymbolTable.mapLines f) := by
  obtain ⟨_ | a, t⟩ := r <;> rfl

theorem bare_mapLines : bare (t.mapLines f) o text ins =
    (bare t o text ins).map id (SymbolTable.mapLines f) := by
  unfold bare
  split_ifs <;> rfl

theorem withOperand_mapLines (r : Except Cause Instruction × SymbolTable) :
    withOperand (t.mapLines f) o text (r.map id (SymbolTable.mapLines f)) =
      (withOperand t o text r).map id (SymbolTable.mapLines f) := by
  unfold withOperand
  split_ifs <;> rfl

theorem bindOperand_mapLines : bindOperand (t.mapLines f) o text =
    (bindOperand t o text).map id (SymbolTable.mapLines f) := by
  cases o with
  | push =>
    have h : ((integer text, t.mapLines f) : Except Cause Int64 × SymbolTable) =
        (integer text, t).map id (SymbolTable.mapLines f) := rfl
    rw [bindOperand, h, ofOperand_map, withOperand_mapLines]
    rfl
  | pushRegister | popRegister =>
    rw [bindOperand, SymbolTable.register_mapLines, ofOperand_map, withOperand_mapLines]
    rfl
  | label | jump | branch _ | call =>
    rw [bindOperand, SymbolTable.label_mapLines, ofOperand_map, withOperand_mapLines]
    rfl
  | _ => exact bare_mapLines

theorem record_mapLines (h : record t line ins = (.ok (), t')) :
    record (t.mapLines f) (f line) ins = (.ok (), t'.mapLines f) := by
  cases ins with
  | begin => exact SymbolTable.markBegin_mapLines h
  | finish => exact SymbolTable.markEnd_mapLines h
  | label => exact SymbolTable.defineLabel_mapLines h
  | _ => cases h; rfl

theorem bind_mapLines (h : bind t o text line = (.ok ins, t')) :
    bind (t.mapLines f) o text (f line) = (.ok ins, t'.mapLines f) := by
  unfold bind at h ⊢
  rw [bindOperand_mapLines]
  rcases hb : bindOperand t o text with ⟨_ | j, t₁⟩
  · simp [hb] at h
  · simp only [hb] at h
    rcases hr : record t₁ line j with ⟨_ | u, t₂⟩
    · simp [hr] at h
    · simp only [hr] at h
      cases h
      simp [record_mapLines hr]

end Instruction

variable {l : Listing} {p : Program} {t t' : SymbolTable} {rs : List Record}
  {is : List Instruction} {line line' : Nat}

theorem bindFrom_mapLines (hf : ∀ k < rs.length, f (line + k) = line' + k)
    (h : bindFrom t line rs = .ok (is, t')) :
    bindFrom (t.mapLines f) line' rs = .ok (is, t'.mapLines f) := by
  induction rs generalizing t line line' is with
  | nil => cases h; rfl
  | cons r rs ih =>
    obtain ⟨j, t₁, js, hb, hr, rfl⟩ := bindFrom_cons_eq_ok_iff.1 h
    have hline : f line = line' := hf 0 (by simp)
    have hrest : ∀ k < rs.length, f (line + 1 + k) = line' + 1 + k := by
      intro k hk
      have hnext := hf (k + 1) (by simpa using hk)
      rw [Nat.add_assoc, Nat.add_comm 1 k, hnext]
      omega
    exact bindFrom_cons_eq_ok_iff.2
      ⟨j, _, js, hline ▸ Instruction.bind_mapLines hb, ih hrest hr, rfl⟩

/-- The record that stands for an empty line is bound wherever it stands, and leaves no trace. -/
theorem bind_blank (t : SymbolTable) (line : Nat) :
    Instruction.bind t .blank "" line = (.ok .blank, t) := rfl

theorem bindFrom_insertIdx (hi : i ≤ rs.length) (h : bindFrom t line rs = .ok (is, t')) :
    bindFrom (t.mapLines (shiftLine (line + i))) line (rs.insertIdx i ⟨.blank, ""⟩) =
      .ok (is.insertIdx i .blank, t'.mapLines (shiftLine (line + i))) := by
  -- lines in front of the insertion stay, those behind it move by one
  induction i generalizing t line rs is with
  | zero =>
    have hf : ∀ k < rs.length, shiftLine line (line + k) = line + 1 + k := by
      intro k _
      rw [shiftLine_of_le (by omega)]
      omega
    rw [List.insertIdx_zero, List.insertIdx_zero, bindFrom, Nat.add_zero]
    simp only [bind_blank, bindFrom_mapLines hf h]
  | succ i ih =>
    cases rs with
    | nil => simp at hi
    | cons r rs =>
      have hi' : i ≤ rs.length := by simpa using hi
      have hline : shiftLine (line + (i + 1)) line = line := shiftLine_of_lt (by omega)
      obtain ⟨j, t₁, js, hb, hr, rfl⟩ := bindFrom_cons_eq_ok_iff.1 h
      have hb' := Instruction.bind_mapLines (f := shiftLine (line + (i + 1))) hb
      have hrest := ih hi' hr
      rw [hline] at hb'
      rw [show line + 1 + i = line + (i + 1) by omega] at hrest
      rw [List.insertIdx_succ_cons, List.insertIdx_succ_cons]
      exact bindFrom_cons_eq_ok_iff.2 ⟨j, _, _, hb', hrest, rfl⟩

/-! ## Programs -/

/-- The listing with an empty line in front of line `i`. -/
def Listing.insertBlank (l : Listing) (i : Nat) : Listing :=
  ⟨l.records.insertIdx i ⟨.blank, ""⟩⟩

/-- The program with an empty line in front of line `i`. -/
def Program.insertBlank (p : Program) (i : Nat) : Program where
  instructions := (p.instructions.toList.insertIdx i .blank).toArray
  listing := p.listing.insertBlank i
  symbols := p.symbols.mapLines (shiftLine i)
  entry := shiftLine i p.entry

/-- **A listing with one more empty line is accepted**, and its instructions have the same
handles. -/
theorem ofListing_insertBlank (h : Program.ofListing l = .ok p) (hi : i ≤ l.records.length) :
    Program.ofListing (l.insertBlank i) = .ok (p.insertBlank i) := by
  obtain ⟨is, t, entry, hb, he, rfl⟩ := Program.ofListing_eq_ok_iff.1 h
  have hb' := bindFrom_insertIdx hi hb
  rw [Nat.zero_add, SymbolTable.mapLines_empty] at hb'
  have he' : (t.mapLines (shiftLine i)).begin = some (shiftLine i entry) := by
    simp [SymbolTable.mapLines, he]
  exact Program.ofListing_eq_ok_iff.2 ⟨_, _, _, hb', he', rfl⟩

namespace Program

theorem length_insertBlank (h : i ≤ p.length) : (p.insertBlank i).length = p.length + 1 := by
  simp only [length, insertBlank, List.size_toArray] at h ⊢
  rw [List.length_insertIdx_of_le_length (by simpa using h), Array.length_toList]

theorem get?_insertBlank (p : Program) (i k : Nat) :
    (p.insertBlank i).get? (shiftLine i k) = p.get? k := by
  simp only [get?, insertBlank, List.getElem?_toArray]
  rw [getElem?_insertIdx_shiftLine, Array.getElem?_toList]

theorem get?_insertBlank_self (h : i ≤ p.length) : (p.insertBlank i).get? i = some .blank := by
  simp only [get?, insertBlank, List.getElem?_toArray]
  rw [List.getElem?_insertIdx_self, if_pos (by simpa [length] using h)]

end Program

namespace Machine

variable {m : Machine} {ins : Instruction} {steps : UInt64}

/-! ## Instructions -/

/-- The machine in the same place of the program with an empty line in front of line `i`. It may
have executed another number of instructions. -/
def withBlank (i : Nat) (steps : UInt64) (m : Machine) : Machine where
  program := m.program.insertBlank i
  pc := shiftLine i m.pc
  stack := m.stack
  calls := m.calls.map (shiftLine i)
  halted := m.halted
  steps := steps

/-- Execution goes on at the same place, or in front of the empty line. -/
inductive NextMoved (i : Nat) : Except Fault Next → Except Fault Next → Prop
  | line (n : Nat) : NextMoved i (.ok (.line n)) (.ok (.line (shiftLine i n)))
  | blank : NextMoved i (.ok (.line i)) (.ok (.line i))
  | halt : NextMoved i (.ok .halt) (.ok .halt)
  | fault (f : Fault) : NextMoved i (.error f) (.error f)

/-- Two instructions end alike. -/
def OutcomeMoved (i : Nat) (steps : UInt64) (o o' : Outcome Machine) : Prop :=
  NextMoved i o.1 o'.1 ∧ o'.2 = o.2.withBlank i steps

theorem advance_withBlank (m : Machine) (i : Nat) (steps : UInt64) :
    OutcomeMoved i steps m.advance (m.withBlank i steps).advance := by
  refine ⟨?_, rfl⟩
  have hpc : (m.withBlank i steps).pc = shiftLine i m.pc := rfl
  rw [advance, advance, hpc]
  obtain h | ⟨h, h'⟩ := shiftLine_succ i m.pc
  · rw [h]
    exact .line _
  · rw [h, h']
    exact .blank

theorem fail_withBlank (m : Machine) (i : Nat) (steps : UInt64) (c : Cause) :
    OutcomeMoved i steps (m.fail c) ((m.withBlank i steps).fail c) :=
  ⟨.fault _, rfl⟩

theorem pushing_withBlank (m : Machine) (i : Nat) (steps : UInt64) (value : Int64) :
    OutcomeMoved i steps (m.pushing value) ((m.withBlank i steps).pushing value) :=
  advance_withBlank { m with stack := m.stack.push value } i steps

theorem jumpTarget_withBlank (m : Machine) (i : Nat) (steps : UInt64) (id : LabelId) :
    (m.withBlank i steps).program.symbols.jumpTarget id =
      (m.program.symbols.jumpTarget id).map (shiftLine i) :=
  SymbolTable.jumpTarget_mapLines

theorem jumping_withBlank (m : Machine) (i : Nat) (steps : UInt64) (id : LabelId) :
    OutcomeMoved i steps (m.jumping id) ((m.withBlank i steps).jumping id) := by
  unfold jumping
  rw [jumpTarget_withBlank]
  cases m.program.symbols.jumpTarget id with
  | error c => exact fail_withBlank m i steps c
  | ok line => exact ⟨.line line, rfl⟩

theorem popping_withBlank (m : Machine) {next : Int64 → Machine → Action Machine}
    (h : ∀ value m, Action.Rel (OutcomeMoved i steps) (next value m)
      (next value (m.withBlank i steps))) :
    Action.Rel (OutcomeMoved i steps) (m.popping next) ((m.withBlank i steps).popping next) :=
  popping_rel rfl (fail_withBlank m i steps _) fun value stack => h value { m with stack }

theorem poppingTwo_withBlank (m : Machine) {next : Int64 → Int64 → Machine → Outcome Machine}
    (h : ∀ top second m, OutcomeMoved i steps (next top second m)
      (next top second (m.withBlank i steps))) :
    Action.Rel (OutcomeMoved i steps) (m.poppingTwo next)
      ((m.withBlank i steps).poppingTwo next) :=
  popping_withBlank m fun top m => popping_withBlank m fun second m => .settle (h top second m)

/-- **An instruction does the same in both programs.** -/
theorem exec_withBlank (m : Machine) (i : Nat) (steps : UInt64) (ins : Instruction) :
    Action.Rel (OutcomeMoved i steps) (m.exec ins) ((m.withBlank i steps).exec ins) := by
  cases ins with
  | begin | blank | label => exact .settle (advance_withBlank m i steps)
  | finish => exact .settle ⟨.halt, rfl⟩
  | push | pushRegister => exact .settle (pushing_withBlank m i steps _)
  | pop => exact popping_withBlank m fun _ m => .settle (advance_withBlank m i steps)
  | popRegister id =>
    rw [exec, exec]
    refine popping_withBlank m fun value m => .settle ?_
    exact advance_withBlank (m.setRegister id value) i steps
  | arithmetic op =>
    refine poppingTwo_withBlank m fun top second m => ?_
    cases op.apply? second top with
    | none => exact fail_withBlank m i steps _
    | some value => exact pushing_withBlank m i steps value
  | read =>
    refine .read ?_
    rintro (f | value)
    · exact ⟨.fault f, rfl⟩
    · exact pushing_withBlank m i steps value
  | write =>
    rw [exec, exec]
    refine popping_withBlank m fun value m => .write value ?_
    rintro (f | _)
    · exact ⟨.fault f, rfl⟩
    · exact advance_withBlank m i steps
  | jump id => exact .settle (jumping_withBlank m i steps id)
  | branch test id =>
    refine poppingTwo_withBlank m fun top second m => ?_
    dsimp only
    split_ifs
    · exact jumping_withBlank { m with stack := m.stack.push top } i steps id
    · exact advance_withBlank { m with stack := m.stack.push top } i steps
  | call id =>
    simp only [exec, jumpTarget_withBlank]
    refine .settle ?_
    cases m.program.symbols.jumpTarget id with
    | error c => exact fail_withBlank m i steps c
    | ok line => exact ⟨.line line, rfl⟩
  | ret =>
    refine .settle ?_
    have hcalls : (m.withBlank i steps).calls = m.calls.map (shiftLine i) := rfl
    simp only [hcalls]
    cases hc : m.calls with
    | nil => exact fail_withBlank m i steps _
    | cons line calls =>
      -- the line behind the call is moved, or it is the empty one
      refine ⟨?_, rfl⟩
      obtain h | ⟨h, h'⟩ := shiftLine_succ i line
      · simp only [List.map_cons, h]
        exact .line _
      · simp only [List.map_cons, h, h']
        exact .blank

/-! ## Steps -/

/-- The machine in front of the empty line. -/
def beforeBlank (i : Nat) (steps : UInt64) (m : Machine) : Machine :=
  { m.withBlank i steps with pc := i, halted := false }

/-- Two results that say the same. A fault that is raised by a line has the number that the line
has; one that the console had tagged stays as it is. -/
inductive ResultMoved {α σ : Type} (console : Console σ) (i : Nat) :
    Except Fault α → Except Fault α → Prop
  | ok (a : α) : ResultMoved console i (.ok a) (.ok a)
  | raised (k : Nat) (c : Cause) : ResultMoved console i (.error (.runtime (k + 1) (.cause c)))
      (.error (.runtime (shiftLine i k + 1) (.cause c)))
  | answered {s : σ} {f : Fault} : f.line?.isSome → console.Answers s f →
      ResultMoved console i (.error f) (.error f)

variable {σ : Type} (console : Console σ)

theorem next?_withBlank (m : Machine) (i : Nat) (steps : UInt64) :
    (m.withBlank i steps).next? = m.next? := by
  have hget : (m.withBlank i steps).program.get? (m.withBlank i steps).pc = m.program.get? m.pc :=
    Program.get?_insertBlank _ _ _
  unfold next?
  rw [hget]
  rfl

theorem request?_withBlank (m : Machine) (i : Nat) (steps : UInt64) :
    (m.withBlank i steps).request? = m.request? :=
  request?_of_rel (next?_withBlank m i steps) fun ins _ =>
    exec_withBlank { m with steps := m.steps + 1 } i (steps + 1) ins

theorem next?_beforeBlank (hi : i ≤ m.program.length) :
    (m.beforeBlank i steps).next? = some .blank :=
  next?_eq_some_iff.2 ⟨rfl, Program.get?_insertBlank_self hi⟩

theorem request?_beforeBlank (hi : i ≤ m.program.length) :
    (m.beforeBlank i steps).request? = none := by
  rw [request?_of_next?_some (next?_beforeBlank hi)]
  rfl

/-- **A step over the empty line** does nothing else. -/
theorem step_beforeBlank (hi : i ≤ m.program.length) (hpc : m.pc = i)
    (hh : m.halted = decide (m.program.length ≤ i)) (steps : UInt64) (s : σ) :
    step console (m.beforeBlank i steps) s =
      ((.ok (!m.halted), m.withBlank i (steps + 1)), s) := by
  have hlen : (m.withBlank i steps).program.length = m.program.length + 1 :=
    Program.length_insertBlank hi
  have hline : shiftLine i m.pc = i + 1 := by rw [hpc, shiftLine_of_le (Nat.le_refl i)]
  have hdec : decide (m.program.length + 1 ≤ i + 1) = m.halted := by
    rw [hh]
    simp
  rw [step_of_next?_some console s (next?_beforeBlank hi)]
  simp only [exec, Action.perform, advance, settle, beforeBlank, hlen, hdec]
  simp [withBlank, hline]

theorem length_step (m : Machine) (s : σ) :
    (step console m s).1.2.program.length = m.program.length := by
  obtain ⟨_, hs⟩ | ⟨ins, ⟨r, m'⟩, _, ho, hs⟩ := step_cases m console s
  · rw [hs]
  · have hlen : m'.program.length = m.program.length := ho.code.length
    rw [hs]
    rcases r with f | n | _ <;> exact hlen

theorem resultMoved_tagged {α : Type} {f : Fault} {s : σ}
    (h : f.line? = none ∨ console.Answers s f) (k : Nat) :
    ResultMoved (α := α) console i (.error (f.atRuntimeLine (k + 1)))
      (.error (f.atRuntimeLine (shiftLine i k + 1))) := by
  cases hline : f.line? with
  | none =>
    obtain ⟨c, rfl⟩ := Fault.line?_eq_none_iff.1 hline
    exact .raised k c
  | some line =>
    have hsome : f.line?.isSome := by simp [hline]
    rw [Fault.atRuntimeLine_of_isSome hsome, Fault.atRuntimeLine_of_isSome hsome]
    exact .answered hsome (h.resolve_left (by simp [hline]))

/-- What a step leaves on the program with the empty line: the same, or a machine in front of the
empty line that has come there in the same way. -/
inductive StepMoved (i : Nat) : Except Fault Bool × Machine → Except Fault Bool × Machine → Prop
  | same {r r' : Except Fault Bool} {m : Machine} (steps : UInt64) : ResultMoved console i r r' →
      StepMoved i (r, m) (r', m.withBlank i steps)
  | blank {m : Machine} (steps : UInt64) : m.pc = i → m.halted = decide (m.program.length ≤ i) →
      StepMoved i (.ok (!m.halted), m) (.ok true, m.beforeBlank i steps)

theorem settle_withBlank {o o' : Outcome Machine} {s : σ} (ho : OutcomeMoved i steps o o')
    (hi : i ≤ o.2.program.length)
    (htag : ∀ f, o.1 = .error f → f.line? = none ∨ console.Answers s f) :
    StepMoved console i (settle o) (settle o') := by
  obtain ⟨r, m⟩ := o
  obtain ⟨r', m'⟩ := o'
  obtain ⟨hnext, hm⟩ := ho
  obtain rfl : m' = m.withBlank i steps := hm
  have hlen : (m.withBlank i steps).program.length = m.program.length + 1 :=
    Program.length_insertBlank hi
  cases hnext with
  | line n =>
    have hdec : decide (m.program.length + 1 ≤ shiftLine i n) = decide (m.program.length ≤ n) := by
      simp [succ_le_shiftLine_iff hi]
    simp only [settle, hlen, hdec]
    exact .same (m := { m with pc := n, halted := decide (m.program.length ≤ n) }) steps (.ok _)
  | blank =>
    have hdec : decide (m.program.length + 1 ≤ i) = false := by
      have hlt : i < m.program.length + 1 := Nat.lt_succ_of_le hi
      simpa using hlt
    simp only [settle, hlen, hdec]
    exact .blank (m := { m with pc := i, halted := decide (m.program.length ≤ i) }) steps rfl rfl
  | halt => exact .same (m := { m with halted := true }) steps (.ok false)
  | fault f =>
    exact .same (m := { m with halted := true }) steps
      (resultMoved_tagged console (htag f rfl) m.pc)

/-- **A step does the same in both programs.** -/
theorem step_withBlank (hi : i ≤ m.program.length) (steps : UInt64) (s : σ) :
    StepMoved console i (step console m s).1 (step console (m.withBlank i steps) s).1 ∧
      (step console (m.withBlank i steps) s).2 = (step console m s).2 := by
  have hn' := next?_withBlank m i steps
  cases hn : m.next? with
  | none =>
    rw [step_of_next?_none console s hn, step_of_next?_none console s (hn'.trans hn)]
    exact ⟨.same (m := { m with halted := true }) steps (.ok false), rfl⟩
  | some ins =>
    rw [step_of_next?_some console s hn, step_of_next?_some console s (hn'.trans hn)]
    have hcode := (exec_all { m with steps := m.steps + 1 } ins).perform console s
    have hraise := exec_raisesUntagged { m with steps := m.steps + 1 } ins
    obtain ⟨ho, hs⟩ :=
      (exec_withBlank { m with steps := m.steps + 1 } i (steps + 1) ins).perform console s
    have hlen := hcode.code.length
    exact ⟨settle_withBlank console ho (hlen ▸ hi) fun f => hraise.perform console s, hs.symm⟩

/-! ## Runs -/

/-- Two runs that came as far as each other. -/
inductive ProgressMoved (i : Nat) : Progress σ → Progress σ → Prop
  | finished {r r' : Except Fault Unit} {m : Machine} {s : σ} (steps : UInt64) :
      ResultMoved console i r r' →
      ProgressMoved i (.finished r m s) (.finished r' (m.withBlank i steps) s)
  | running {m : Machine} {s : σ} (steps : UInt64) :
      ProgressMoved i (.running m s) (.running (m.withBlank i steps) s)

/-- Behind steps that did the same, runs go on as they do from there. -/
theorem run_of_resultMoved {m m' m₁ : Machine} {s s' s₁ : σ} {r r' : Except Fault Bool}
    {fuel : Nat} (hstep : step console m s = ((r, m₁), s₁))
    (hstep' : step console m' s' = ((r', m₁.withBlank i steps), s₁))
    (hr : ResultMoved console i r r')
    (hrest : ∃ fuel', fuel ≤ fuel' ∧
      ProgressMoved console i (run console fuel m₁ s₁)
        (run console fuel' (m₁.withBlank i steps) s₁) ∧
      requests console fuel' (m₁.withBlank i steps) s₁ = requests console fuel m₁ s₁) :
    ∃ fuel', fuel + 1 ≤ fuel' ∧
      ProgressMoved console i (run console (fuel + 1) m s) (run console fuel' m' s') ∧
      requests console fuel' m' s' = m'.request?.toList ++ requests console fuel m₁ s₁ := by
  obtain ⟨fuel', hle, hrun, hreq⟩ := hrest
  refine ⟨fuel' + 1, Nat.succ_le_succ hle, ?_, ?_⟩
  · rw [run, run, hstep, hstep']
    cases hr with
    | ok b =>
      cases b with
      | false => exact .finished steps (.ok ())
      | true => exact hrun
    | raised k c => exact .finished steps (.raised k c)
    | answered hsome hanswer => exact .finished steps (.answered hsome hanswer)
  · rw [requests, hstep', hreq]

/-- **A run does the same in both programs**, and asks the console for the same things. -/
theorem run_withBlank (hi : i ≤ m.program.length) (steps : UInt64) (s : σ) (fuel : Nat) :
    ∃ fuel', fuel ≤ fuel' ∧
      ProgressMoved console i (run console fuel m s) (run console fuel' (m.withBlank i steps) s) ∧
      requests console fuel' (m.withBlank i steps) s = requests console fuel m s := by
  induction fuel generalizing m s steps with
  | zero => exact ⟨0, Nat.le_refl 0, .running steps, rfl⟩
  | succ fuel ih =>
    have hask := request?_withBlank m i steps
    have hlen := length_step console m s
    obtain ⟨hmoved, hs⟩ := step_withBlank console hi steps s
    rcases hstep : step console m s with ⟨⟨r, m₁⟩, s₁⟩
    rcases hstep' : step console (m.withBlank i steps) s with ⟨⟨r', m₁'⟩, s₁'⟩
    rw [hstep] at hlen
    rw [hstep, hstep'] at hmoved hs
    have hi₁ : i ≤ m₁.program.length := hlen ▸ hi
    obtain rfl : s₁' = s₁ := hs
    rw [requests, hstep, ← hask]
    cases hmoved with
    | same steps hr => exact run_of_resultMoved console hstep hstep' hr (ih hi₁ steps s₁')
    | blank steps hpc hh =>
      -- one step more, and both machines are in the same place
      have hblank := step_beforeBlank console hi₁ hpc hh steps s₁'
      obtain ⟨fuel', hle, hrun, hreq⟩ := run_of_resultMoved console hstep hblank (.ok _)
        (ih hi₁ (steps + 1) s₁')
      refine ⟨fuel' + 1, by omega, ?_, ?_⟩
      · have hone := run_of_ok console (congrArg (·.1.1) hstep') fuel'
        rwa [hone, hstep']
      · rw [requests, hstep', hreq, request?_beforeBlank hi₁]
        rfl

theorem finishes_withBlank {r : Except Fault Unit} {asked : List Request} {m' : Machine} {s s' : σ}
    (hi : i ≤ m.program.length) (steps : UInt64) (h : Finishes console m s r asked m' s') :
    ∃ r' steps', ResultMoved console i r r' ∧
      Finishes console (m.withBlank i steps) s r' asked (m'.withBlank i steps') s' := by
  obtain ⟨fuel, hrun, rfl⟩ := h
  obtain ⟨fuel', _, hmoved, hreq⟩ := run_withBlank console hi steps s fuel
  rw [hrun] at hmoved
  generalize hq : run console fuel' (m.withBlank i steps) s = q at hmoved
  cases hmoved with
  | finished steps' hr => exact ⟨_, steps', hr, fuel', hq, hreq⟩

/-- A run that goes on for ever does so in both programs. -/
theorem finishes_of_withBlank {r : Except Fault Unit} {asked : List Request} {m' : Machine}
    {s s' : σ} (hi : i ≤ m.program.length) (steps : UInt64)
    (h : Finishes console (m.withBlank i steps) s r asked m' s') :
    ∃ r asked m' s', Finishes console m s r asked m' s' := by
  obtain ⟨fuel, hrun, _⟩ := h
  obtain ⟨fuel', hle, hmoved, _⟩ := run_withBlank console hi steps s fuel
  have hrun' := run_of_le console hrun hle
  cases hq : run console fuel m s with
  | finished r m₁ s₁ => exact ⟨r, _, m₁, s₁, fuel, hq, rfl⟩
  | running m₁ s₁ =>
    rw [hq, hrun'] at hmoved
    cases hmoved

theorem ResultMoved.exists_error {α : Type} {r' : Except Fault α} {f : Fault}
    (h : ResultMoved console i (.error f) r') : ∃ f', r' = .error f' ∧ f'.root = f.root ∧
      ((∃ line c, f = .runtime line (.cause c) ∧
          f' = .runtime (if line ≤ i then line else line + 1) (.cause c)) ∨
        f' = f ∧ f.line?.isSome ∧ ∃ s, console.Answers s f) := by
  cases h with
  | raised k c =>
    have hline : shiftLine i k + 1 = if k + 1 ≤ i then k + 1 else k + 1 + 1 := by
      unfold shiftLine
      split_ifs <;> omega
    exact ⟨_, rfl, rfl, Or.inl ⟨k + 1, c, rfl, by rw [hline]⟩⟩
  | answered hsome hanswer => exact ⟨_, rfl, rfl, Or.inr ⟨rfl, hsome, _, hanswer⟩⟩

theorem ResultMoved.ok_iff {α : Type} {r r' : Except Fault α} {a : α}
    (h : ResultMoved console i r r') : r = .ok a ↔ r' = .ok a := by
  cases h <;> simp

end Machine

open Machine in
/-- **An empty line changes nothing.** The listing with an empty line in front of any line is
accepted, and the run of its program ends if and only if that of the other program does. Both have
asked the console for the same things and have left it in the same state; their stacks, registers
and call depths are the same. Both end in order or both fail for the same reason, and where a line
failed, it is reported under the number that it has now. A fault that the console had tagged with a
line stays as it is. -/
theorem insertBlank_runs_alike {l : Listing} {p : Program} (h : Program.ofListing l = .ok p)
    {i : Nat} (hi : i ≤ l.records.length) :
    ∃ p', Program.ofListing (l.insertBlank i) = .ok p' ∧
      ∀ {σ : Type} (console : Console σ) (s : σ),
        ((∃ r asked m t, Finishes console (.start p) s r asked m t) ↔
          ∃ r asked m t, Finishes console (.start p') s r asked m t) ∧
        ∀ r asked m t r' asked' m' t', Finishes console (.start p) s r asked m t →
          Finishes console (.start p') s r' asked' m' t' →
          asked' = asked ∧ t' = t ∧ m'.stack = m.stack ∧
          (∀ name, m'.registerValue? name = m.registerValue? name) ∧
          m'.callDepth = m.callDepth ∧
          (r = .ok () ↔ r' = .ok ()) ∧
          ∀ f, r = .error f → ∃ f', r' = .error f' ∧ f'.root = f.root ∧
            ((∃ line c, f = .runtime line (.cause c) ∧
                f' = .runtime (if line ≤ i then line else line + 1) (.cause c)) ∨
              f' = f ∧ f.line?.isSome ∧ ∃ s, console.Answers s f) := by
  have hlen : i ≤ (start p).program.length := (Program.length_of_ofListing h).symm ▸ hi
  refine ⟨p.insertBlank i, ofListing_insertBlank h hi, fun console s => ⟨⟨?_, ?_⟩, ?_⟩⟩
  · rintro ⟨r, asked, m, t, hf⟩
    obtain ⟨r', steps, _, hf'⟩ := finishes_withBlank console hlen 0 hf
    exact ⟨r', asked, m.withBlank i steps, t, hf'⟩
  · rintro ⟨r, asked, m, t, hf⟩
    exact finishes_of_withBlank console hlen 0 hf
  · intro r asked m t r' asked' m' t' hf hf'
    obtain ⟨r₁, steps, hr, hf₁⟩ := finishes_withBlank console hlen 0 hf
    obtain ⟨rfl, rfl, rfl, rfl⟩ := Finishes.unique console hf' hf₁
    refine ⟨rfl, rfl, rfl, fun _ => rfl, List.length_map _, hr.ok_iff, ?_⟩
    rintro f rfl
    exact hr.exists_error

open Machine in
/-- A call returns to the empty line behind it; later a return fails one line further down. -/
theorem insertBlank_runs_alike_behind_call :
    let l : Listing := ⟨[⟨.begin, ""⟩, ⟨.call, "f"⟩, ⟨.pop, ""⟩, ⟨.label, "f"⟩, ⟨.push, "7"⟩,
      ⟨.ret, ""⟩]⟩
    let p : Program := ⟨#[.begin, .call ⟨0⟩, .pop, .label ⟨0⟩, .push 7, .ret], l,
      ⟨[], [⟨"f", some 3⟩], some 0, none⟩, 0⟩
    Program.ofListing l = .ok p ∧ 2 ≤ l.records.length ∧
      (∃ m, Finishes silent (.start p) ()
        (.error (.runtime 6 (.cause .returnWithoutCall))) [] m ()) ∧
      ∃ p' m, Program.ofListing (l.insertBlank 2) = .ok p' ∧
        Finishes silent (.start p') () (.error (.runtime 7 (.cause .returnWithoutCall))) [] m () ∧
        m.stack.values = [7] ∧ m.callDepth = 0 := by
  intro l p
  have hsilent : requests silent 9 (.start p) () = [] := by subst p l; rfl
  have hvalues : (after silent 9 (.start p) ()).1.stack.values = [7] := rfl
  have hcalls : (after silent 9 (.start p) ()).1.callDepth = 0 := rfl
  have hf : Finishes silent (.start p) () (.error (.runtime 6 (.cause .returnWithoutCall))) []
      (after silent 9 (.start p) ()).1 () := ⟨9, rfl, hsilent⟩
  have h : Program.ofListing l = .ok p := rfl
  have hi : 2 ≤ l.records.length := by decide
  generalize (after silent 9 (.start p) ()).1 = last at hf hvalues hcalls
  clear_value p
  obtain ⟨p', hp', hrun⟩ := insertBlank_runs_alike h hi
  obtain ⟨⟨hends, -⟩, hsame⟩ := hrun silent ()
  obtain ⟨r', asked', m', t', hf'⟩ := hends ⟨_, _, _, _, hf⟩
  obtain ⟨hasked, _, hstack, _, hdepth, _, hfault⟩ := hsame _ _ _ _ _ _ _ _ hf hf'
  obtain ⟨f', hr', -, hline⟩ := hfault _ rfl
  have hseven : r' = .error (.runtime 7 (.cause .returnWithoutCall)) := by
    rw [hr']
    obtain ⟨line, c, hc, hc'⟩ | ⟨_, _, _, hanswer⟩ := hline
    · cases hc
      rw [hc']
      rfl
    · obtain hr | ⟨value, hw⟩ := hanswer
      · cases hr
      · cases hw
  rw [hseven, hasked] at hf'
  exact ⟨h, hi, ⟨last, hf⟩, p', m', hp', hf', hstack ▸ hvalues, hdepth.trans hcalls⟩

end StackMachine
