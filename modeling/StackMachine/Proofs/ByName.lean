import Mathlib.Logic.Function.Basic
import StackMachine.Proofs.Bound
import StackMachine.Proofs.Runs

/-!
# Execution by name

Binding is an implementation of names: a listing can be executed as it stands, with registers
looked up by name and jumps that search the listing for the line of their label.

* `NamedMachine`: a machine that executes records; `NamedMachine.exec`, `NamedMachine.step`.
* `Matches`: a machine on a bound program is in the same state as a machine on the listing.
* **`exec_matches`**, **`step_matches`**: it stays so with every instruction and every step.
* **`run_by_name`**: a bound program and its listing run alike.
-/

namespace StackMachine

/-! ## The reference -/

/-- A machine in the middle of a run of a listing. -/
structure NamedMachine where
  line : Nat
  stack : List Int64
  registers : String → Int64
  calls : List Nat
  halted : Bool

namespace NamedMachine

/-- The machine on the line of `BEGIN`. -/
def start (l : Listing) : NamedMachine where
  line := l.records.findIdx (·.opcode == .begin)
  stack := []
  registers := fun _ => 0
  calls := []
  halted := false

section Exec

-- what follows does to names what its namesakes on `Machine` do to handles

variable (l : Listing) (m : NamedMachine)

def advance : Outcome NamedMachine :=
  (.ok (.line (m.line + 1)), m)

def fail (c : Cause) : Outcome NamedMachine :=
  (.error (.cause c), m)

def pushing (value : Int64) : Outcome NamedMachine :=
  advance { m with stack := value :: m.stack }

def popping (next : Int64 → NamedMachine → Action NamedMachine) : Action NamedMachine :=
  match m.stack with
  | [] => .settle (m.fail .emptyStack)
  | value :: rest => next value { m with stack := rest }

def poppingTwo (next : Int64 → Int64 → NamedMachine → Outcome NamedMachine) :
    Action NamedMachine :=
  m.popping fun top m => m.popping fun second m => .settle (next top second m)

/-- Goes on at the line of a label in some state, or fails. -/
def jumping (name : String) (there : NamedMachine) : Outcome NamedMachine :=
  match labelLine? l.records name with
  | some line => (.ok (.line line), there)
  | none => m.fail (.unresolvedLabel name)

/-- What a record does. -/
def exec (r : Record) : Action NamedMachine :=
  match r.opcode with
  | .begin | .blank | .label => .settle m.advance
  | .finish => .settle (.ok .halt, m)
  | .push => .settle (m.pushing (Int64.ofInt (Decimal.value r.operand.toList)))
  | .pop => m.popping fun _ m => .settle m.advance
  | .pushRegister => .settle (m.pushing (m.registers r.operand))
  | .popRegister => m.popping fun value m =>
    .settle (advance { m with registers := Function.update m.registers r.operand value })
  | .arithmetic op => m.poppingTwo fun top second m =>
    match op.apply? second top with
    | some value => m.pushing value
    | none => m.fail .divisionByZero
  | .read => .read fun
    | .ok value => m.pushing value
    | .error f => (.error f, m)
  | .write => m.popping fun value m => .write value fun
    | .ok () => m.advance
    | .error f => (.error f, m)
  | .jump => .settle (m.jumping l r.operand m)
  | .branch test => m.poppingTwo fun top second m =>
    let m := { m with stack := top :: m.stack }
    if test.holds top second then m.jumping l r.operand m else m.advance
  | .call => .settle (m.jumping l r.operand { m with calls := m.line :: m.calls })
  | .ret => .settle <|
    match m.calls with
    | [] => m.fail .returnWithoutCall
    | line :: calls => (.ok (.line (line + 1)), { m with calls })

end Exec

section Run

variable {σ : Type} (l : Listing) (console : Console σ)

def settle : Outcome NamedMachine → Except Fault Bool × NamedMachine
  | (.ok (.line n), m) =>
    let halted := decide (l.records.length ≤ n)
    (.ok (!halted), { m with line := n, halted })
  | (.ok .halt, m) => (.ok false, { m with halted := true })
  | (.error f, m) => (.error (f.atRuntimeLine (m.line + 1)), { m with halted := true })

/-- The record that the next step executes, if there is one. -/
def next? (m : NamedMachine) : Option Record :=
  if m.halted then none else l.records[m.line]?

def step (m : NamedMachine) (s : σ) : (Except Fault Bool × NamedMachine) × σ :=
  match m.next? l with
  | none => ((.ok false, { m with halted := true }), s)
  | some r =>
    let (outcome, s) := (m.exec l r).perform console s
    (settle l outcome, s)

def after (n : Nat) (m : NamedMachine) (s : σ) : NamedMachine × σ :=
  match n with
  | 0 => (m, s)
  | n + 1 =>
    let ((_, m), s) := step l console m s
    after n m s

def results (n : Nat) (m : NamedMachine) (s : σ) : List (Except Fault Bool) :=
  match n with
  | 0 => []
  | n + 1 =>
    let ((r, m), s) := step l console m s
    r :: results n m s

end Run

end NamedMachine

/-! ## The same state -/

/-- A machine that runs the code of a program is in the state of a machine on its listing. -/
structure Matches (p : Program) (m : Machine) (m' : NamedMachine) : Prop where
  code : p.SameCode m.program
  line : m.pc = m'.line
  stack : m.stack.values = m'.stack
  registers : ∀ e ∈ m.program.symbols.registers, e.value = m'.registers e.name
  calls : m.calls = m'.calls
  halted : m.halted = m'.halted

/-- Two outcomes that say the same of states that match. -/
def SameOutcome (p : Program) (o : Outcome Machine) (o' : Outcome NamedMachine) : Prop :=
  o.1 = o'.1 ∧ Matches p o.2 o'.2

namespace Matches

variable {l : Listing} {p : Program} {m : Machine} {m' : NamedMachine} {name : String}

theorem withStack (h : Matches p m m') {stack : Stack} {values : List Int64}
    (hs : stack.values = values) : Matches p { m with stack } { m' with stack := values } :=
  ⟨h.code, h.line, hs, h.registers, h.calls, h.halted⟩

theorem advance (h : Matches p m m') : SameOutcome p m.advance m'.advance := by
  refine ⟨?_, h⟩
  rw [Machine.advance, NamedMachine.advance, h.line]

theorem fail (h : Matches p m m') (c : Cause) : SameOutcome p (m.fail c) (m'.fail c) :=
  ⟨rfl, h⟩

theorem pushing (h : Matches p m m') (value : Int64) :
    SameOutcome p (m.pushing value) (m'.pushing value) :=
  (h.withStack (congrArg (value :: ·) h.stack)).advance

theorem popping (h : Matches p m m') {next : Int64 → Machine → Action Machine}
    {next' : Int64 → NamedMachine → Action NamedMachine}
    (hnext : ∀ value m m', Matches p m m' →
      Action.Rel (SameOutcome p) (next value m) (next' value m')) :
    Action.Rel (SameOutcome p) (m.popping next) (m'.popping next') := by
  unfold Machine.popping NamedMachine.popping Stack.pop?
  rw [← h.stack]
  cases m.stack.values with
  | nil => exact .settle (h.fail _)
  | cons value rest => exact hnext _ _ _ (h.withStack rfl)

theorem poppingTwo (h : Matches p m m') {next : Int64 → Int64 → Machine → Outcome Machine}
    {next' : Int64 → Int64 → NamedMachine → Outcome NamedMachine}
    (hnext : ∀ top second m m', Matches p m m' →
      SameOutcome p (next top second m) (next' top second m')) :
    Action.Rel (SameOutcome p) (m.poppingTwo next) (m'.poppingTwo next') :=
  h.popping fun _ _ _ h => h.popping fun _ _ _ h => .settle (hnext _ _ _ _ h)

theorem jumpTarget (hb : BoundTo l p) (h : Matches p m m') {id : LabelId}
    (hn : p.symbols.usedLabels[id.index]? = some name) :
    m.program.symbols.jumpTarget id =
      match labelLine? l.records name with
      | some line => .ok line
      | none => .error (.unresolvedLabel name) := by
  have ht := (h.code.labelTarget? id).trans (hb.table.labelTarget? hn)
  have hn' : m.program.symbols.usedLabels[id.index]? = some name := h.code.usedLabels ▸ hn
  cases hl : labelLine? l.records name with
  | none => exact SymbolTable.jumpTarget_of_none hn' (ht.trans hl)
  | some line => exact SymbolTable.jumpTarget_of_some (ht.trans hl)

theorem jumping (hb : BoundTo l p) (h : Matches p m m') {id : LabelId}
    (hn : p.symbols.usedLabels[id.index]? = some name) :
    SameOutcome p (m.jumping id) (m'.jumping l name m') := by
  unfold Machine.jumping NamedMachine.jumping
  rw [h.jumpTarget hb hn]
  cases labelLine? l.records name with
  | none => exact h.fail _
  | some line => exact ⟨rfl, h⟩

theorem readRegister (h : Matches p m m') {id : RegisterId}
    (hn : p.symbols.usedRegisters[id.index]? = some name) :
    m.program.symbols.readRegister id = m'.registers name := by
  obtain ⟨e, he, rfl, hv⟩ := SymbolTable.readRegister_of_named (h.code.usedRegisters ▸ hn)
  rw [hv, h.registers e he]

theorem setRegister (hb : BoundTo l p) (h : Matches p m m') {id : RegisterId}
    (hn : p.symbols.usedRegisters[id.index]? = some name) (value : Int64) :
    Matches p (m.setRegister id value)
      { m' with registers := Function.update m'.registers name value } := by
  refine ⟨h.code.trans (Program.sameCode_writeRegister _ _), h.line, h.stack, ?_, h.calls, h.halted⟩
  intro e he
  have hw := h.code.wellFormed hb.table.toWellFormed
  simp only [Machine.setRegister] at he
  rw [SymbolTable.writeRegister_of_named hw (h.code.usedRegisters ▸ hn)] at he
  obtain ⟨e', he', rfl⟩ := List.mem_map.1 he
  -- names are distinct, so that no other entry has changed
  by_cases hname : e'.name = name
  · simp [hname]
  · simp [hname, h.registers e' he']

/-- **A bound instruction does what its record says.** -/
theorem exec_matches (hb : BoundTo l p) (h : Matches p m m') {r : Record} {i : Instruction}
    (hi : Binds p.symbols r i) : Action.Rel (SameOutcome p) (m.exec i) (m'.exec l r) := by
  cases hi with
  | begin | blank | label => exact .settle h.advance
  | finish => exact .settle ⟨rfl, h⟩
  | push => exact .settle (h.pushing _)
  | pop => exact h.popping fun _ _ _ h => .settle h.advance
  | pushRegister hn =>
    refine .settle ?_
    rw [h.readRegister hn]
    exact h.pushing _
  | popRegister hn =>
    rw [Machine.exec, NamedMachine.exec]
    refine h.popping fun value _ _ h => ?_
    exact .settle (h.setRegister hb hn value).advance
  | arithmetic op =>
    refine h.poppingTwo fun top second _ _ h => ?_
    cases op.apply? second top with
    | none => exact h.fail _
    | some value => exact h.pushing _
  | read =>
    refine .read ?_
    rintro (f | value)
    · exact ⟨rfl, h⟩
    · exact h.pushing _
  | write =>
    rw [Machine.exec, NamedMachine.exec]
    refine h.popping fun value _ _ h => ?_
    refine .write value ?_
    rintro (f | _)
    · exact ⟨rfl, h⟩
    · exact h.advance
  | jump hn => exact .settle (h.jumping hb hn)
  | branch test hn =>
    refine h.poppingTwo fun top second _ _ h => ?_
    have h' := h.withStack (congrArg (top :: ·) h.stack)
    dsimp only
    split_ifs
    · exact h'.jumping hb hn
    · exact h'.advance
  | call hn =>
    refine .settle ?_
    unfold NamedMachine.jumping
    rw [h.jumpTarget hb hn]
    cases labelLine? l.records _ with
    | none => exact h.fail _
    | some line =>
      refine ⟨rfl, h.code, h.line, h.stack, h.registers, ?_, h.halted⟩
      dsimp only
      rw [h.line, h.calls]
  | ret =>
    refine .settle ?_
    rw [← h.calls]
    cases m.calls with
    | nil => exact h.fail _
    | cons line calls => exact ⟨rfl, h.code, h.line, h.stack, h.registers, rfl, h.halted⟩

/-! ## Steps and runs -/

theorem settle (hb : BoundTo l p) {o : Outcome Machine} {o' : Outcome NamedMachine}
    (h : SameOutcome p o o') : (Machine.settle o).1 = (NamedMachine.settle l o').1 ∧
      Matches p (Machine.settle o).2 (NamedMachine.settle l o').2 := by
  obtain ⟨r, m⟩ := o
  obtain ⟨r', m'⟩ := o'
  obtain ⟨hr, hm⟩ := h
  obtain rfl : r = r' := hr
  have hlen : m.program.length = l.records.length := hm.code.length.trans hb.length
  rcases r with f | n | _
  · refine ⟨?_, hm.code, hm.line, hm.stack, hm.registers, hm.calls, rfl⟩
    rw [Machine.settle, NamedMachine.settle, hm.line]
  · refine ⟨?_, hm.code, rfl, hm.stack, hm.registers, hm.calls, ?_⟩
    · simp only [Machine.settle, NamedMachine.settle, hlen]
    · simp only [Machine.settle, NamedMachine.settle, hlen]
  · exact ⟨rfl, hm.code, hm.line, hm.stack, hm.registers, hm.calls, rfl⟩

variable {σ : Type} (console : Console σ) (s : σ)

theorem next? (hb : BoundTo l p) (h : Matches p m m') :
    (m.next? = none ∧ m'.next? l = none) ∨
      ∃ i r, m.next? = some i ∧ m'.next? l = some r ∧ Binds p.symbols r i := by
  unfold Machine.next? NamedMachine.next?
  rw [← h.halted, ← h.line, h.code.get?]
  cases m.halted with
  | true => exact Or.inl ⟨rfl, rfl⟩
  | false =>
    cases hi : p.get? m.pc with
    | none =>
      have hr : l.records[m.pc]? = none := by
        rw [List.getElem?_eq_none_iff, ← hb.length]
        exact Array.getElem?_eq_none_iff.1 hi
      exact Or.inl ⟨rfl, hr⟩
    | some i =>
      obtain ⟨r, hr, hbi⟩ := hb.binds_of_get? hi
      exact Or.inr ⟨i, r, rfl, hr, hbi⟩

/-- **A step of a bound program is a step of its listing.** -/
theorem step_matches (hb : BoundTo l p) (h : Matches p m m') :
    (Machine.step console m s).1.1 = (m'.step l console s).1.1 ∧
      Matches p (Machine.step console m s).1.2 (m'.step l console s).1.2 ∧
      (Machine.step console m s).2 = (m'.step l console s).2 := by
  unfold NamedMachine.step
  obtain ⟨hi, hr⟩ | ⟨i, r, hi, hr, hbi⟩ := h.next? hb
  · rw [Machine.step_of_next?_none console s hi, hr]
    exact ⟨rfl, ⟨h.code, h.line, h.stack, h.registers, h.calls, rfl⟩, rfl⟩
  · have hm : Matches p { m with steps := m.steps + 1 } m' :=
      ⟨h.code, h.line, h.stack, h.registers, h.calls, h.halted⟩
    obtain ⟨ho, hs⟩ := (hm.exec_matches hb hbi).perform console s
    obtain ⟨hres, hm'⟩ := settle hb ho
    rw [Machine.step_of_next?_some console s hi, hr]
    exact ⟨hres, hm', hs⟩

theorem after_matches (hb : BoundTo l p) (h : Matches p m m') (n : Nat) :
    Machine.results console n m s = m'.results l console n s ∧
      Matches p (Machine.after console n m s).1 (m'.after l console n s).1 ∧
      (Machine.after console n m s).2 = (m'.after l console n s).2 := by
  induction n generalizing m m' s with
  | zero => exact ⟨rfl, h, rfl⟩
  | succ n ih =>
    obtain ⟨hr, hm, hs⟩ := step_matches console s hb h
    obtain ⟨hrs, hrest⟩ := ih (m'.step l console s).2 hm
    rw [Machine.results_succ, Machine.after_step, hr, hs]
    exact ⟨congrArg (_ :: ·) hrs, hrest⟩

theorem start (hb : BoundTo l p) : Matches p (.start p) (.start l) where
  code := .refl p
  line := (List.findIdx?_eq_some_iff_findIdx_eq.1 hb.entry).2.symm
  stack := rfl
  registers := hb.table.value
  calls := rfl
  halted := rfl

theorem registerValue?_eq (hb : BoundTo l p) (h : Matches p m m') (name : String) :
    m.registerValue? name =
      if ∃ r ∈ l.records, r.registerName? = some name then some (m'.registers name) else none := by
  have hused : name ∈ m.program.symbols.usedRegisters ↔
      ∃ r ∈ l.records, r.registerName? = some name := by
    rw [← h.code.usedRegisters, hb.table.mem_usedRegisters]
  unfold Machine.registerValue? SymbolTable.registerValue?
  cases he : m.program.symbols.registers.find? (·.name == name) with
  | none =>
    rw [if_neg]
    · rfl
    · rw [← hused, SymbolTable.usedRegisters, List.mem_map]
      rintro ⟨e, hm, hn⟩
      exact absurd hn (by simpa using List.find?_eq_none.1 he e hm)
  | some e =>
    have hn : e.name = name := by simpa using List.find?_some he
    have hm := List.mem_of_find?_eq_some he
    rw [if_pos (hused.1 (hn ▸ List.mem_map_of_mem hm)), Option.map_some, h.registers e hm, hn]

end Matches

/-- **A bound program runs as its listing says**: `n` steps have the same results, leave the console
and the machine in the same state, and registers have values exactly if a record names them. No
two lines define one label. -/
theorem run_by_name {l : Listing} {p : Program} (h : Program.ofListing l = .ok p) {σ : Type}
    (console : Console σ) (s : σ) (n : Nat) :
    let (m, t) := Machine.after console n (.start p) s
    let (m', t') := NamedMachine.after l console n (.start l) s
    Machine.results console n (.start p) s = NamedMachine.results l console n (.start l) s ∧
      t = t' ∧ m.pc = m'.line ∧ m.stack.values = m'.stack ∧ m.calls = m'.calls ∧
      m.halted = m'.halted ∧
      (∀ name, m.registerValue? name =
        if ∃ r ∈ l.records, r.registerName? = some name then some (m'.registers name)
        else none) ∧
      ∀ name k, labelLine? l.records name = some k ↔ l.records[k]? = some ⟨.label, name⟩ := by
  have hb := boundTo_of_ofListing h
  obtain ⟨hr, hm, hs⟩ := (Matches.start hb).after_matches console s hb n
  exact ⟨hr, hs, hm.line, hm.stack, hm.calls, hm.halted, hm.registerValue?_eq hb,
    fun name k => hb.admissible.labelLine?_eq_some_iff⟩

/-- A jump forward, a register, and a jump to a label that no line defines. -/
theorem run_by_name_forward_jump :
    let l : Listing := ⟨[⟨.begin, ""⟩, ⟨.jump, "on"⟩, ⟨.pop, ""⟩, ⟨.label, "on"⟩, ⟨.push, "+5"⟩,
      ⟨.popRegister, "bx"⟩, ⟨.jump, "nowhere"⟩]⟩
    let p : Program := ⟨#[.begin, .jump ⟨0⟩, .pop, .label ⟨0⟩, .push 5, .popRegister ⟨0⟩,
      .jump ⟨1⟩], l, ⟨[⟨"bx", 0⟩], [⟨"on", some 3⟩, ⟨"nowhere", none⟩], some 0, none⟩, 0⟩
    let m := (Machine.after Machine.silent 6 (.start p) ()).1
    Program.ofListing l = .ok p ∧
      Machine.results Machine.silent 6 (.start p) () = [.ok true, .ok true, .ok true, .ok true,
        .ok true, .error (.runtime 7 (.cause (.unresolvedLabel "nowhere")))] ∧
      m.registerValue? "bx" = some 5 ∧ m.registerValue? "ax" = none := by
  intro l p m
  have h : Program.ofListing l = .ok p := rfl
  obtain ⟨hr, _, _, _, _, _, hreg, _⟩ := run_by_name h Machine.silent () 6
  exact ⟨h, hr.trans rfl, (hreg "bx").trans rfl, (hreg "ax").trans rfl⟩

end StackMachine
