import StackMachine.Machine.Run
import StackMachine.Proofs.Symbols

/-!
# Instructions, steps and runs

What an instruction can do to a machine, whatever the console answers, and how runs are put
together from steps.

* `Action.All`, `Action.Rel`: what every outcome of an action satisfies, and two actions that ask
  the console for the same things and have related outcomes.
* `Program.SameCode`: programs that differ in the values of their registers only.
* **`exec_all`**: an instruction moves control as `Flow` says and keeps the rest (`Ending`).
* **`step_cases`**: a step of a machine with that.
* `Machine.results`: the results of the steps of a run; `after_add`, `getElem?_results`.
-/

namespace StackMachine

/-! ## Actions -/

namespace Action

variable {μ ν σ : Type} {P : Outcome μ → Prop} {R : Outcome μ → Outcome ν → Prop}
  {a : Action μ} {a' : Action ν}

/-- Every outcome satisfies a property. -/
def All (P : Outcome μ → Prop) : Action μ → Prop
  | settle o => P o
  | read resume => ∀ answer, P (resume answer)
  | write _ resume => ∀ answer, P (resume answer)

theorem All.perform (h : a.All P) (console : Console σ) (s : σ) :
    P (a.perform console s).1 := by
  cases a with
  | settle o => exact h
  | read resume => exact h _
  | write value resume => exact h _

/-- Two actions ask the console for the same things, and their outcomes are related. -/
inductive Rel (R : Outcome μ → Outcome ν → Prop) : Action μ → Action ν → Prop
  | settle {o : Outcome μ} {o' : Outcome ν} : R o o' → Rel R (.settle o) (.settle o')
  | read {resume : Except Fault Int64 → Outcome μ} {resume' : Except Fault Int64 → Outcome ν} :
      (∀ answer, R (resume answer) (resume' answer)) → Rel R (.read resume) (.read resume')
  | write (value : Int64) {resume : Except Fault Unit → Outcome μ}
      {resume' : Except Fault Unit → Outcome ν} : (∀ answer, R (resume answer) (resume' answer)) →
      Rel R (.write value resume) (.write value resume')

theorem Rel.mono {R' : Outcome μ → Outcome ν → Prop} (hR : ∀ o o', R o o' → R' o o')
    (h : Rel R a a') : Rel R' a a' := by
  cases h with
  | settle h => exact .settle (hR _ _ h)
  | read h => exact .read fun answer => hR _ _ (h answer)
  | write value h => exact .write value fun answer => hR _ _ (h answer)

/-- Related actions have related outcomes and leave the console in the same state. -/
theorem Rel.perform (h : Rel R a a') (console : Console σ) (s : σ) :
    R (a.perform console s).1 (a'.perform console s).1 ∧
      (a.perform console s).2 = (a'.perform console s).2 := by
  cases h with
  | settle h => exact ⟨h, rfl⟩
  | read h => exact ⟨h _, rfl⟩
  | write value h => exact ⟨h _, rfl⟩

end Action

/-! ## Programs with the same code -/

namespace Program

variable {p q : Program}

/-- Two programs differ in the values of their registers only. -/
structure SameCode (p q : Program) : Prop where
  instructions : p.instructions = q.instructions
  listing : p.listing = q.listing
  entry : p.entry = q.entry
  usedRegisters : p.symbols.usedRegisters = q.symbols.usedRegisters
  labels : p.symbols.labels = q.symbols.labels
  begin : p.symbols.begin = q.symbols.begin
  finish : p.symbols.finish = q.symbols.finish

namespace SameCode

theorem refl (p : Program) : p.SameCode p :=
  ⟨rfl, rfl, rfl, rfl, rfl, rfl, rfl⟩

theorem trans {p' : Program} (h : p.SameCode q) (h' : q.SameCode p') : p.SameCode p' :=
  ⟨h.instructions.trans h'.instructions, h.listing.trans h'.listing, h.entry.trans h'.entry,
    h.usedRegisters.trans h'.usedRegisters, h.labels.trans h'.labels, h.begin.trans h'.begin,
    h.finish.trans h'.finish⟩

theorem get? (h : p.SameCode q) (line : Nat) : q.get? line = p.get? line := by
  rw [Program.get?, Program.get?, h.instructions]

theorem length (h : p.SameCode q) : q.length = p.length := by
  rw [Program.length, Program.length, h.instructions]

theorem usedLabels (h : p.SameCode q) : q.symbols.usedLabels = p.symbols.usedLabels := by
  rw [SymbolTable.usedLabels, SymbolTable.usedLabels, h.labels]

theorem labelTarget? (h : p.SameCode q) (id : LabelId) :
    q.symbols.labelTarget? id = p.symbols.labelTarget? id := by
  rw [SymbolTable.labelTarget?, SymbolTable.labelTarget?, h.labels]

theorem hasRegister (h : p.SameCode q) (id : RegisterId) :
    q.symbols.hasRegister id = p.symbols.hasRegister id := by
  have hl := congrArg List.length h.usedRegisters
  rw [SymbolTable.usedRegisters, SymbolTable.usedRegisters, List.length_map, List.length_map] at hl
  rw [SymbolTable.hasRegister, SymbolTable.hasRegister, hl]

theorem hasLabel (h : p.SameCode q) (id : LabelId) :
    q.symbols.hasLabel id = p.symbols.hasLabel id := by
  rw [SymbolTable.hasLabel, SymbolTable.hasLabel, h.labels]

theorem wellFormed (h : p.SameCode q) (hp : p.symbols.WellFormed) : q.symbols.WellFormed where
  registers_nodup := h.usedRegisters ▸ hp.registers_nodup
  registers_valid := h.usedRegisters ▸ hp.registers_valid
  labels_nodup := h.usedLabels ▸ hp.labels_nodup
  labels_valid := h.usedLabels ▸ hp.labels_valid

end SameCode

theorem sameCode_writeRegister (id : RegisterId) (value : Int64) :
    p.SameCode { p with symbols := p.symbols.writeRegister id value } := by
  refine ⟨rfl, rfl, rfl, ?_, rfl, rfl, rfl⟩
  refine List.ext_getElem? fun j => ?_
  simp only [SymbolTable.usedRegisters, SymbolTable.writeRegister, List.getElem?_map,
    List.getElem?_modify]
  cases p.symbols.registers[j]? with
  | none => rfl
  | some r => by_cases hj : id.index = j <;> simp [hj]

end Program

namespace Machine

/-! ## Instructions -/

/-- How an instruction on a line moves control: where execution goes on, and the calls that are
pending then. -/
inductive Flow (p : Program) (pc : Nat) (calls : List Nat) :
    Instruction → Except Fault Next → List Nat → Prop
  /-- On to the next line; no end, call or return does so. -/
  | next {i : Instruction} : i.opcode ∉ [.finish, .call, .ret] →
      Flow p pc calls i (.ok (.line (pc + 1))) calls
  | halt : Flow p pc calls .finish (.ok .halt) calls
  /-- To a label. -/
  | jump {i : Instruction} {id : LabelId} {line : Nat} :
      i = .jump id ∨ (∃ test, i = .branch test id) → p.symbols.labelTarget? id = some line →
      Flow p pc calls i (.ok (.line line)) calls
  /-- To a label, with one more call pending. -/
  | call {id : LabelId} {line : Nat} : p.symbols.labelTarget? id = some line →
      Flow p pc calls (.call id) (.ok (.line line)) (pc :: calls)
  /-- Behind the latest pending call. -/
  | ret {line : Nat} {rest : List Nat} : calls = line :: rest →
      Flow p pc calls .ret (.ok (.line (line + 1))) rest
  | fail {i : Instruction} (f : Fault) : Flow p pc calls i (.error f) calls

theorem Flow.eq_finish {p : Program} {pc : Nat} {calls calls' : List Nat} {i : Instruction}
    (h : Flow p pc calls i (.ok .halt) calls') : i = .finish := by
  cases h
  rfl

/-- How an instruction ends: control moves as `Flow` says, the code and the line stay. -/
structure Ending (m : Machine) (i : Instruction) (o : Outcome Machine) : Prop where
  flow : Flow m.program m.pc m.calls i o.1 o.2.calls
  code : m.program.SameCode o.2.program
  pc : o.2.pc = m.pc

variable {m : Machine} {i : Instruction} {P : Outcome Machine → Prop}

theorem popping_all {next : Int64 → Machine → Action Machine} (hfail : P (m.fail .emptyStack))
    (h : ∀ value stack, (next value { m with stack }).All P) : (m.popping next).All P := by
  unfold popping
  split
  · exact hfail
  · exact h _ _

theorem poppingTwo_all {next : Int64 → Int64 → Machine → Outcome Machine}
    (hfail : ∀ stack, P (fail { m with stack } .emptyStack))
    (h : ∀ top second stack, P (next top second { m with stack })) :
    (m.poppingTwo next).All P :=
  popping_all (hfail m.stack) fun _ _ =>
    popping_all (hfail _) fun _ _ => h _ _ _

theorem popping_rel {m' : Machine} {R : Outcome Machine → Outcome Machine → Prop}
    {next : Int64 → Machine → Action Machine} (hstack : m'.stack = m.stack)
    (hfail : R (m.fail .emptyStack) (m'.fail .emptyStack))
    (h : ∀ value stack, Action.Rel R (next value { m with stack }) (next value { m' with stack })) :
    Action.Rel R (m.popping next) (m'.popping next) := by
  unfold popping
  rw [hstack]
  cases m.stack.pop? with
  | none => exact .settle hfail
  | some popped => exact h popped.1 popped.2

theorem ending_fail (c : Cause) (stack : Stack) : Ending m i (fail { m with stack } c) :=
  ⟨.fail _, .refl _, rfl⟩

theorem ending_advance (stack : Stack) (hi : i.opcode ∉ [.finish, .call, .ret]) :
    Ending m i (advance { m with stack }) :=
  ⟨.next hi, .refl _, rfl⟩

theorem ending_jumping {id : LabelId} (stack : Stack)
    (hi : i = .jump id ∨ ∃ test, i = .branch test id) :
    Ending m i (jumping { m with stack } id) := by
  unfold jumping SymbolTable.jumpTarget
  cases ht : m.program.symbols.labelTarget? id with
  | none => exact ending_fail _ _
  | some line => exact ⟨.jump hi ht, .refl _, rfl⟩

/-- **What an instruction can do**, whatever the console answers. -/
theorem exec_all (m : Machine) (i : Instruction) : (m.exec i).All (Ending m i) := by
  cases i with
  | begin | blank | label => exact ending_advance _ (by simp [Instruction.opcode])
  | finish => exact ⟨.halt, .refl _, rfl⟩
  | push value => exact ending_advance _ (by simp [Instruction.opcode])
  | pop =>
    rw [exec]
    refine popping_all (ending_fail _ m.stack) fun _ stack => ?_
    exact ending_advance stack (by simp [Instruction.opcode])
  | pushRegister id => exact ending_advance _ (by simp [Instruction.opcode])
  | popRegister id =>
    rw [exec]
    refine popping_all (ending_fail _ m.stack) fun value stack => ?_
    exact ⟨.next (by simp [Instruction.opcode]), Program.sameCode_writeRegister _ _, rfl⟩
  | arithmetic op =>
    rw [exec]
    refine poppingTwo_all (ending_fail _) fun top second stack => ?_
    cases op.apply? second top with
    | none => exact ending_fail _ stack
    | some value => exact ending_advance _ (by simp [Instruction.opcode])
  | read =>
    rintro (f | value)
    · exact ⟨.fail f, .refl _, rfl⟩
    · exact ending_advance _ (by simp [Instruction.opcode])
  | write =>
    rw [exec]
    refine popping_all (ending_fail _ m.stack) fun value stack => ?_
    rintro (f | _)
    · exact ⟨.fail f, .refl _, rfl⟩
    · exact ending_advance stack (by simp [Instruction.opcode])
  | jump id => exact ending_jumping m.stack (Or.inl rfl)
  | branch test id =>
    rw [exec]
    refine poppingTwo_all (ending_fail _) fun top second stack => ?_
    dsimp only
    split_ifs
    · exact ending_jumping _ (Or.inr ⟨test, rfl⟩)
    · exact ending_advance _ (by simp [Instruction.opcode])
  | call id =>
    simp only [exec, Action.All, SymbolTable.jumpTarget]
    cases ht : m.program.symbols.labelTarget? id with
    | none => exact ending_fail _ m.stack
    | some line => exact ⟨.call ht, .refl _, rfl⟩
  | ret =>
    simp only [exec, Action.All]
    cases hc : m.calls with
    | nil => exact ⟨.fail _, .refl _, rfl⟩
    | cons line calls => exact ⟨.ret hc, .refl _, rfl⟩

/-! ## Steps -/

section Steps

variable {σ : Type} (console : Console σ) (s : σ)

theorem step_of_next?_none (h : m.next? = none) :
    step console m s = ((.ok false, { m with halted := true }), s) := by
  unfold step action?
  rw [h]
  rfl

theorem step_of_next?_some (h : m.next? = some i) : step console m s =
    (settle ((exec { m with steps := m.steps + 1 } i).perform console s).1,
      ((exec { m with steps := m.steps + 1 } i).perform console s).2) := by
  unfold step action?
  rw [h]
  rfl

/-- Two machines in front of the same instruction do steps that are related, if the outcomes of the
instruction are. -/
theorem step_of_rel {m' : Machine}
    {S : Except Fault Bool × Machine → Except Fault Bool × Machine → Prop}
    (hnext : m'.next? = m.next?)
    (hhalt : S (.ok false, { m with halted := true }) (.ok false, { m' with halted := true }))
    (hrel : ∀ i, m.next? = some i → Action.Rel (fun o o' => S (settle o) (settle o'))
      (exec { m with steps := m.steps + 1 } i) (exec { m' with steps := m'.steps + 1 } i)) :
    S (step console m s).1 (step console m' s).1 ∧
      (step console m' s).2 = (step console m s).2 := by
  cases hi : m.next? with
  | none =>
    rw [step_of_next?_none console s hi, step_of_next?_none console s (hnext.trans hi)]
    exact ⟨hhalt, rfl⟩
  | some i =>
    rw [step_of_next?_some console s hi, step_of_next?_some console s (hnext.trans hi)]
    obtain ⟨ho, hs⟩ := (hrel i hi).perform console s
    exact ⟨ho, hs.symm⟩

variable (m)

/-- **What a step can do**: nothing, or what the instruction at the program counter does. -/
theorem step_cases :
    (m.next? = none ∧ step console m s = ((.ok false, { m with halted := true }), s)) ∨
      ∃ i o, m.next? = some i ∧ Ending m i o ∧ (step console m s).1 = settle o := by
  cases hi : m.next? with
  | none => exact Or.inl ⟨rfl, step_of_next?_none console s hi⟩
  | some i =>
    have ho := (exec_all { m with steps := m.steps + 1 } i).perform console s
    rw [step_of_next?_some console s hi]
    exact Or.inr ⟨i, _, rfl, ⟨ho.flow, ho.code, ho.pc⟩, rfl⟩

end Steps

theorem next?_eq_some_iff : m.next? = some i ↔ m.halted = false ∧ m.program.get? m.pc = some i := by
  unfold next?
  cases m.halted <;> simp

/-! ## Runs -/

/-- A console that has nothing to read and takes everything that is written. -/
def silent : Console Unit where
  read s := (.error (.cause .inputExhausted), s)
  write _ s := (.ok (), s)

section Runs

variable {σ : Type} (console : Console σ)

/-- The results of `n` steps. -/
def results (n : Nat) (m : Machine) (s : σ) : List (Except Fault Bool) :=
  match n with
  | 0 => []
  | n + 1 =>
    let ((r, m), s) := step console m s
    r :: results n m s

variable (m : Machine) (s : σ)

theorem after_step (n : Nat) : after console (n + 1) m s =
    after console n (step console m s).1.2 (step console m s).2 :=
  rfl

theorem results_succ (n : Nat) : results console (n + 1) m s =
    (step console m s).1.1 :: results console n (step console m s).1.2 (step console m s).2 :=
  rfl

theorem after_add (n k : Nat) : after console (n + k) m s =
    after console k (after console n m s).1 (after console n m s).2 := by
  induction n generalizing m s with
  | zero => rw [Nat.zero_add]; rfl
  | succ n ih => rw [Nat.succ_add]; exact ih _ _

theorem after_succ (n : Nat) : after console (n + 1) m s =
    ((step console (after console n m s).1 (after console n m s).2).1.2,
      (step console (after console n m s).1 (after console n m s).2).2) :=
  after_add console m s n 1

/-- The result of one more step stands behind the others. -/
theorem results_concat (n : Nat) : results console (n + 1) m s = results console n m s ++
    [(step console (after console n m s).1 (after console n m s).2).1.1] := by
  induction n generalizing m s with
  | zero => rfl
  | succ n ih =>
    rw [results_succ, ih]
    rfl

@[simp] theorem length_results (n : Nat) : (results console n m s).length = n := by
  induction n generalizing m s with
  | zero => rfl
  | succ n ih => exact congrArg (· + 1) (ih _ _)

theorem getElem?_results {n k : Nat} (h : k < n) : (results console n m s)[k]? =
    some (step console (after console k m s).1 (after console k m s).2).1.1 := by
  induction n generalizing m s k with
  | zero => exact absurd h (Nat.not_lt_zero k)
  | succ n ih =>
    cases k with
    | zero => rfl
    | succ k => exact ih _ _ (Nat.lt_of_succ_lt_succ h)

theorem after_of_halted {m : Machine} (h : m.halted = true) (n : Nat) :
    after console n m s = (m, s) := by
  induction n with
  | zero => rfl
  | succ n ih => rw [after_succ, ih, step_of_halted console s h]

/-- What every step preserves, every run preserves. -/
theorem after_induction {P : Machine → Prop}
    (hstep : ∀ m (s : σ), P m → P (step console m s).1.2) {m : Machine} (h : P m) (n : Nat) :
    P (after console n m s).1 := by
  induction n with
  | zero => exact h
  | succ n ih => rw [after_succ]; exact hstep _ _ ih

end Runs

end Machine

end StackMachine
