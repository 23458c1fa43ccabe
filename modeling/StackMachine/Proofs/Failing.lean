import StackMachine.Proofs.Faults
import StackMachine.Proofs.Safety

/-!
# Steps that fail

An instruction fails for want of operands, and otherwise only if it divides by zero, jumps to a
label that no line defines, returns without a call, or is refused by the console. Apart from the
operands it has taken, a failing step leaves everything as it was.

* `Opcode.operands`: the number of values that an instruction takes.
* `Machine.Fails`: why a record fails, and what it leaves of the operands.
* `perform_of_fails`, `exists_fails`: **an instruction fails exactly so**.
* `step_of_fails`, `fails_of_step`: so does a step, which halts the machine.
* **`step_fails_exactly`**: the next step in every state of every run of a bound program.
-/

namespace StackMachine

/-! ## Operands -/

/-- The number of values that an instruction takes from the stack. -/
def Opcode.operands : Opcode → Nat
  | .pop | .popRegister | .write => 1
  | .arithmetic _ | .branch _ => 2
  | _ => 0

namespace Stack

variable {s : Stack}

theorem depth_lt_one_or (s : Stack) : s.depth < 1 ∨ ∃ top rest, s.values = top :: rest := by
  obtain ⟨_ | ⟨top, rest⟩⟩ := s
  · exact .inl Nat.one_pos
  · exact .inr ⟨top, rest, rfl⟩

theorem depth_lt_two_or (s : Stack) :
    s.depth < 2 ∨ ∃ top second rest, s.values = top :: second :: rest := by
  obtain ⟨_ | ⟨top, _ | ⟨second, rest⟩⟩⟩ := s
  · exact .inl Nat.two_pos
  · exact .inl Nat.one_lt_two
  · exact .inr ⟨top, second, rest, rfl⟩

end Stack

namespace Machine

variable {l : Listing} {p : Program} {m : Machine} {i : Instruction} {r : Record} {σ : Type}
  {console : Console σ} {s t : σ} {f : Fault} {values rest : List Int64} {top second : Int64}

theorem popping_of_lt {next : Int64 → Machine → Action Machine} (h : m.stack.depth < 1) :
    m.popping next = .settle (fail { m with stack := .empty } .emptyStack) := by
  obtain ⟨p, pc, ⟨_ | ⟨top, rest⟩⟩, calls, halted, steps⟩ := m
  · rfl
  · cases Nat.lt_one_iff.1 h

theorem popping_of_cons {next : Int64 → Machine → Action Machine}
    (h : m.stack.values = top :: rest) : m.popping next = next top { m with stack := ⟨rest⟩ } := by
  rw [popping, Stack.pop?, h]

theorem poppingTwo_of_lt {next : Int64 → Int64 → Machine → Outcome Machine}
    (h : m.stack.depth < 2) :
    m.poppingTwo next = .settle (fail { m with stack := .empty } .emptyStack) := by
  obtain hlt | ⟨top, rest, hv⟩ := m.stack.depth_lt_one_or
  · exact popping_of_lt hlt
  · have hrest : Stack.depth ⟨rest⟩ < 1 := by
      rw [Stack.depth, hv] at h
      exact Nat.lt_of_succ_lt_succ h
    rw [poppingTwo, popping_of_cons hv, popping_of_lt hrest]

theorem poppingTwo_of_cons {next : Int64 → Int64 → Machine → Outcome Machine}
    (h : m.stack.values = top :: second :: rest) :
    m.poppingTwo next = .settle (next top second { m with stack := ⟨rest⟩ }) := by
  rw [poppingTwo, popping_of_cons h, popping_of_cons rfl]

/-! ## Labels -/

/-- **A jump fails exactly if no line defines its label.** -/
theorem Inside.jumpTarget_eq_error_iff (hb : BoundTo l p) (h : Inside p m) {id : LabelId}
    {name : String} (hn : p.symbols.usedLabels[id.index]? = some name) {c : Cause} :
    m.program.symbols.jumpTarget id = .error c ↔
      c = .unresolvedLabel name ∧ (⟨.label, name⟩ : Record) ∉ l.records := by
  have ht : m.program.symbols.labelTarget? id = labelLine? l.records name :=
    (h.code.labelTarget? id).trans (hb.table.labelTarget? hn)
  rw [← labelLine?_eq_none_iff]
  cases hl : labelLine? l.records name with
  | none =>
    rw [SymbolTable.jumpTarget_of_none (h.code.usedLabels ▸ hn) (ht.trans hl)]
    simp [eq_comm]
  | some line => simp [SymbolTable.jumpTarget_of_some (ht.trans hl)]

/-! ## Instructions -/

/-- Why a record fails on a machine and a console; what it leaves of the operands, the topmost one
first, and of the console. -/
inductive Fails (l : Listing) (console : Console σ) (m : Machine) (s : σ) :
    Record → Fault → List Int64 → σ → Prop
  /-- Too few operands, all of which are taken. -/
  | emptyStack {r : Record} : m.stack.depth < r.opcode.operands →
      Fails l console m s r (.cause .emptyStack) [] s
  | divisionByZero {r : Record} {second : Int64} {rest : List Int64} :
      r.opcode = .arithmetic .div → m.stack.values = 0 :: second :: rest →
      Fails l console m s r (.cause .divisionByZero) rest s
  | jump {r : Record} : r.opcode = .jump ∨ r.opcode = .call → ⟨.label, r.operand⟩ ∉ l.records →
      Fails l console m s r (.cause (.unresolvedLabel r.operand)) m.stack.values s
  /-- Only a branch that is taken needs its label; the second operand is gone by then. -/
  | branch {r : Record} {test : Comparison} {top second : Int64} {rest : List Int64} :
      r.opcode = .branch test → m.stack.values = top :: second :: rest →
      test.holds top second = true → ⟨.label, r.operand⟩ ∉ l.records →
      Fails l console m s r (.cause (.unresolvedLabel r.operand)) (top :: rest) s
  | ret {r : Record} : r.opcode = .ret → m.calls = [] →
      Fails l console m s r (.cause .returnWithoutCall) m.stack.values s
  | read {r : Record} {f : Fault} {t : σ} : r.opcode = .read → console.read s = (.error f, t) →
      Fails l console m s r f m.stack.values t
  /-- The value is taken before the console is asked. -/
  | write {r : Record} {value : Int64} {rest : List Int64} {f : Fault} {t : σ} :
      r.opcode = .write → m.stack.values = value :: rest →
      console.write value s = (.error f, t) → Fails l console m s r f rest t

/-- Failing depends on the operands and the pending calls only. -/
theorem Fails.of_eq (h : Fails l console m s r f values t) (m' : Machine)
    (hs : m'.stack = m.stack) (hc : m'.calls = m.calls) : Fails l console m' s r f values t := by
  obtain ⟨p', pc', stack', calls', halted', steps'⟩ := m'
  obtain rfl : stack' = m.stack := hs
  obtain rfl : calls' = m.calls := hc
  cases h with
  | emptyStack hd => exact .emptyStack hd
  | divisionByZero ho hv => exact .divisionByZero ho hv
  | jump ho hl => exact .jump ho hl
  | branch ho hv ht hl => exact .branch ho hv ht hl
  | ret ho hc => exact .ret ho hc
  | read ho hq => exact .read ho hq
  | write ho hv hq => exact .write ho hv hq

/-- **What fails leaves everything but its operands.** -/
theorem perform_of_fails (hb : BoundTo l p) (hin : Inside p m) (hbi : Binds p.symbols r i)
    (h : Fails l console m s r f values t) :
    (m.exec i).perform console s = ((.error f, { m with stack := ⟨values⟩ }), t) := by
  cases h with
  | emptyStack hd =>
    cases hbi with
    | pop | popRegister | write => rw [exec, popping_of_lt hd]; rfl
    | arithmetic | branch => rw [exec, poppingTwo_of_lt hd]; rfl
    | _ => cases hd
  | divisionByZero ho hv =>
    cases hbi <;> cases ho
    rw [exec, poppingTwo_of_cons hv]
    rfl
  | jump ho hl =>
    rcases ho with ho | ho <;> cases hbi <;> cases ho
    · next id hn =>
      rw [exec, jumping, (hin.jumpTarget_eq_error_iff hb hn).2 ⟨rfl, hl⟩]
      rfl
    · next id hn =>
      rw [exec, (hin.jumpTarget_eq_error_iff hb hn).2 ⟨rfl, hl⟩]
      rfl
  | branch ho hv ht hl =>
    cases hbi <;> cases ho
    next id hn =>
      rw [exec, poppingTwo_of_cons hv]
      simp only [ht, if_true, jumping, (hin.jumpTarget_eq_error_iff hb hn).2 ⟨rfl, hl⟩]
      rfl
  | ret ho hc =>
    cases hbi <;> cases ho
    rw [exec]
    split
    · rfl
    · next hcons => rw [hc] at hcons; cases hcons
  | read ho hq =>
    cases hbi <;> cases ho
    rw [exec, Action.perform, hq]
  | write ho hv hq =>
    cases hbi <;> cases ho
    rw [exec, popping_of_cons hv, Action.perform, hq]

theorem jumping_eq_error_iff {id : LabelId} : (m.jumping id).1 = .error f ↔
    ∃ c, m.program.symbols.jumpTarget id = .error c ∧ f = .cause c := by
  unfold jumping
  cases m.program.symbols.jumpTarget id with
  | ok line => simp
  | error c => simp [fail, eq_comm]

theorem fails_of_arithmetic {op : Arithmetic} (ho : r.opcode = .arithmetic op)
    (hv : m.stack.values = top :: second :: rest)
    (h : ((m.exec (.arithmetic op)).perform console s).1.1 = .error f) :
    ∃ values t, Fails l console m s r f values t := by
  rw [exec, poppingTwo_of_cons hv] at h
  cases op with
  | add | sub | mul => cases h
  | div =>
    by_cases h0 : top = 0
    · subst h0
      cases h
      exact ⟨rest, s, .divisionByZero ho hv⟩
    · have hquotient : Arithmetic.div.apply? second top = some (second / top) := if_neg h0
      simp only [hquotient] at h
      cases h

theorem fails_of_read (ho : r.opcode = .read)
    (h : ((m.exec .read).perform console s).1.1 = .error f) :
    ∃ values t, Fails l console m s r f values t := by
  rcases hq : console.read s with ⟨f' | value, t⟩
  · rw [exec, Action.perform, hq] at h
    cases h
    exact ⟨_, t, .read ho hq⟩
  · rw [exec, Action.perform, hq] at h
    cases h

theorem fails_of_write {value : Int64} (ho : r.opcode = .write)
    (hv : m.stack.values = value :: rest)
    (h : ((m.exec .write).perform console s).1.1 = .error f) :
    ∃ values t, Fails l console m s r f values t := by
  rw [exec, popping_of_cons hv] at h
  rcases hq : console.write value s with ⟨f' | _, t⟩
  · rw [Action.perform, hq] at h
    cases h
    exact ⟨rest, t, .write ho hv hq⟩
  · rw [Action.perform, hq] at h
    cases h

theorem fails_of_ret (ho : r.opcode = .ret)
    (h : ((m.exec .ret).perform console s).1.1 = .error f) :
    ∃ values t, Fails l console m s r f values t := by
  cases hc : m.calls with
  | nil =>
    rw [exec, hc] at h
    cases h
    exact ⟨_, s, .ret ho hc⟩
  | cons line calls => rw [exec, hc] at h; cases h

section

variable {id : LabelId} (hb : BoundTo l p) (hin : Inside p m)
  (hn : p.symbols.usedLabels[id.index]? = some r.operand)

include hb hin hn

theorem fails_of_jump (ho : r.opcode = .jump)
    (h : ((m.exec (.jump id)).perform console s).1.1 = .error f) :
    ∃ values t, Fails l console m s r f values t := by
  obtain ⟨c, hc, rfl⟩ := jumping_eq_error_iff.1 h
  obtain ⟨rfl, hl⟩ := (hin.jumpTarget_eq_error_iff hb hn).1 hc
  exact ⟨_, s, .jump (.inl ho) hl⟩

theorem fails_of_call (ho : r.opcode = .call)
    (h : ((m.exec (.call id)).perform console s).1.1 = .error f) :
    ∃ values t, Fails l console m s r f values t := by
  cases hj : m.program.symbols.jumpTarget id with
  | ok line => rw [exec, hj] at h; cases h
  | error c =>
    obtain ⟨rfl, hl⟩ := (hin.jumpTarget_eq_error_iff hb hn).1 hj
    rw [exec, hj] at h
    cases h
    exact ⟨_, s, .jump (.inr ho) hl⟩

theorem fails_of_branch {test : Comparison} (ho : r.opcode = .branch test)
    (hv : m.stack.values = top :: second :: rest)
    (h : ((m.exec (.branch test id)).perform console s).1.1 = .error f) :
    ∃ values t, Fails l console m s r f values t := by
  rw [exec, poppingTwo_of_cons hv] at h
  by_cases ht : test.holds top second = true
  · simp only [ht, if_true] at h
    obtain ⟨c, hc, rfl⟩ := jumping_eq_error_iff.1 h
    obtain ⟨rfl, hl⟩ := (hin.jumpTarget_eq_error_iff hb hn).1 hc
    exact ⟨_, s, .branch ho hv ht hl⟩
  · simp only [ht] at h
    cases h

end

/-- **Nothing else fails.** -/
theorem exists_fails (hb : BoundTo l p) (hin : Inside p m) (hbi : Binds p.symbols r i)
    (h : ((m.exec i).perform console s).1.1 = .error f) :
    ∃ values t, Fails l console m s r f values t := by
  -- want of operands goes before everything else
  by_cases hd : m.stack.depth < r.opcode.operands
  · have hf : Fails l console m s r _ [] s := .emptyStack hd
    rw [perform_of_fails hb hin hbi hf] at h
    cases h
    exact ⟨[], s, hf⟩
  cases hbi with
  | begin | blank | label | finish | push | pushRegister => cases h
  | pop | popRegister =>
    obtain ⟨top, rest, hv⟩ := m.stack.depth_lt_one_or.resolve_left hd
    rw [exec, popping_of_cons hv] at h
    cases h
  | arithmetic op =>
    obtain ⟨top, second, rest, hv⟩ := m.stack.depth_lt_two_or.resolve_left hd
    exact fails_of_arithmetic rfl hv h
  | read => exact fails_of_read rfl h
  | write =>
    obtain ⟨value, rest, hv⟩ := m.stack.depth_lt_one_or.resolve_left hd
    exact fails_of_write rfl hv h
  | jump hn => exact fails_of_jump hb hin hn rfl h
  | branch test hn =>
    obtain ⟨top, second, rest, hv⟩ := m.stack.depth_lt_two_or.resolve_left hd
    exact fails_of_branch hb hin hn rfl hv h
  | call hn => exact fails_of_call hb hin hn rfl h
  | ret => exact fails_of_ret rfl h

/-! ## Steps -/

theorem Inside.exists_binds (hb : BoundTo l p) (h : Inside p m) (hm : m.halted = false)
    (hr : l.records[m.pc]? = some r) : ∃ i, m.next? = some i ∧ Binds p.symbols r i := by
  obtain ⟨i, _, hi, -⟩ := (h.safe hb).next hm
  obtain ⟨r', hr', hbi⟩ := h.binds hb hi
  obtain rfl : r' = r := Option.some.inj (hr'.symm.trans hr)
  exact ⟨i, hi, hbi⟩

theorem Inside.withSteps (h : Inside p m) (steps : UInt64) : Inside p { m with steps } :=
  ⟨h.code, h.pc_le, h.pc_lt, h.calls⟩

/-- **A failing step** is tagged with its line, halts the machine, is counted and takes operands;
everything else stays. -/
theorem step_of_fails (hb : BoundTo l p) (hin : Inside p m) (hm : m.halted = false)
    (hr : l.records[m.pc]? = some r) (h : Fails l console m s r f values t) :
    step console m s = ((.error (f.atRuntimeLine (m.pc + 1)),
      { m with stack := ⟨values⟩, halted := true, steps := m.steps + 1 }), t) := by
  obtain ⟨i, hi, hbi⟩ := hin.exists_binds hb hm hr
  rw [step_of_next?_some console s hi,
    perform_of_fails hb (hin.withSteps (m.steps + 1)) hbi (h.of_eq _ rfl rfl)]
  rfl

theorem fails_of_step (hb : BoundTo l p) (hin : Inside p m) (hm : m.halted = false)
    (hr : l.records[m.pc]? = some r) (h : (step console m s).1.1 = .error f) :
    ∃ f' values t, Fails l console m s r f' values t := by
  obtain ⟨i, hi, hbi⟩ := hin.exists_binds hb hm hr
  rw [step_of_next?_some console s hi] at h
  obtain ⟨g, hg, rfl⟩ := exists_of_settle_eq_error h
  obtain ⟨values, t, hf⟩ := exists_fails hb (hin.withSteps (m.steps + 1)) hbi hg
  exact ⟨g, values, t, hf.of_eq m rfl rfl⟩

theorem Fails.line?_eq_none (hc : console.Untagged) (h : Fails l console m s r f values t) :
    f.line? = none := by
  cases h with
  | emptyStack | divisionByZero | jump | branch | ret => rfl
  | read _ hq => exact hc s f (.inl (by rw [hq]))
  | write _ _ hq => exact hc s f (.inr ⟨_, by rw [hq]⟩)

/-- **A step fails exactly if it must.** In every state that a run of a bound program comes to, the
record on the line of a machine that has not halted decides with the operands, the pending calls
and the console whether the next step fails. If it does, the fault is tagged with that line, the
machine has halted and has counted the step; it has lost the operands that the record takes, and
nothing else has changed. -/
theorem step_fails_exactly {l : Listing} {p : Program} (h : Program.ofListing l = .ok p)
    {τ : Type} (before : Console τ) (s₀ : τ) (n : Nat) {σ : Type} (console : Console σ) (s : σ)
    (hc : console.Untagged) (hm : (after before n (start p) s₀).1.halted = false) :
    let m := (after before n (start p) s₀).1
    ∃ i r, m.next? = some i ∧ l.records[m.pc]? = some r ∧ i.opcode = r.opcode ∧
      ((∃ f, (step console m s).1.1 = .error f) ↔ ∃ f values t, Fails l console m s r f values t) ∧
      ∀ f values t, Fails l console m s r f values t →
        step console m s = ((.error (.runtime (m.pc + 1) f),
          { m with stack := ⟨values⟩, halted := true, steps := m.steps + 1 }), t) := by
  intro m
  have hb := boundTo_of_ofListing h
  have hin : Inside p m := inside_after before hb n
  obtain ⟨i, r, hi, hr, ho⟩ := (hin.safe hb).next hm
  rw [← hin.code.listing, hb.listing] at hr
  refine ⟨i, r, hi, hr, ho, ⟨?_, ?_⟩, fun f values t hf => ?_⟩
  · rintro ⟨f, hf⟩
    exact fails_of_step hb hin hm hr hf
  · rintro ⟨f, values, t, hf⟩
    exact ⟨_, congrArg (·.1.1) (step_of_fails hb hin hm hr hf)⟩
  · have hline := hf.line?_eq_none hc
    rw [step_of_fails hb hin hm hr hf, Fault.atRuntimeLine, hline]
    rfl

/-- A branch is taken to a label that no line defines. The second operand is gone, and the topmost
one is still there. -/
theorem step_fails_exactly_at_taken_branch :
    let l : Listing := ⟨[⟨.begin, ""⟩, ⟨.push, "1"⟩, ⟨.push, "1"⟩, ⟨.branch .equal, "nowhere"⟩]⟩
    let p : Program := ⟨#[.begin, .push 1, .push 1, .branch .equal ⟨0⟩], l,
      ⟨[], [⟨"nowhere", none⟩], some 0, none⟩, 0⟩
    let m := (after silent 3 (start p) ()).1
    let f : Fault := .cause (.unresolvedLabel "nowhere")
    Program.ofListing l = .ok p ∧ m.halted = false ∧ m.stack.values = [1, 1] ∧
      Fails l Stream.console m {} ⟨.branch .equal, "nowhere"⟩ f [1] {} ∧
      step Stream.console m {} = ((.error (.runtime 4 f),
        { m with stack := ⟨[1]⟩, halted := true, steps := 4 }), {}) := by
  intro l p m f
  have h : Program.ofListing l = .ok p := rfl
  have hm : m.halted = false := rfl
  have hv : m.stack.values = [1, 1] := rfl
  have hf : Fails l Stream.console m {} ⟨.branch .equal, "nowhere"⟩ f [1] {} :=
    .branch rfl hv rfl (by decide)
  obtain ⟨i, r, -, hr, -, -, hstep⟩ :=
    step_fails_exactly h silent () 3 Stream.console {} Stream.console_untagged hm
  obtain rfl : r = ⟨.branch .equal, "nowhere"⟩ := Option.some.inj (hr.symm.trans rfl)
  exact ⟨h, hm, hv, hf, hstep f [1] {} hf⟩

end Machine

end StackMachine
