import StackMachine.Proofs.Acceptance
import StackMachine.Proofs.Runs

/-!
# Reachable states

A machine that runs a bound program never leaves it: the line is one of the program or, once it
has halted, the one behind it; pending calls are lines with calls; handles have entries.

* `Inside`: what a step preserves; **`Inside.step`**.
* `Safe`: what follows for the next instruction and for all handles; `Inside.safe`.
* `halt_of_step`, `fault_of_step`: where a machine halts.
* **`after_safe`**: every state of every run of a bound program.
-/

namespace StackMachine.Machine

variable {l : Listing} {p : Program} {m : Machine} {i : Instruction} {o : Outcome Machine}
  {σ : Type} (console : Console σ) {s : σ}

/-- The machine runs the code of a program and is inside of it. -/
structure Inside (p : Program) (m : Machine) : Prop where
  code : p.SameCode m.program
  pc_le : m.pc ≤ p.length
  pc_lt : m.halted = false → m.pc < p.length
  calls : ∀ k ∈ m.calls, ∃ id, p.get? k = some (.call id)

/-- Nothing that the machine looks up can be missing. -/
structure Safe (p : Program) (m : Machine) : Prop extends Inside p m where
  next : m.halted = false → ∃ i r, m.next? = some i ∧
    m.program.listing.records[m.pc]? = some r ∧ i.opcode = r.opcode
  registers : ∀ i ∈ m.program.instructions, ∀ id, i.register? = some id →
    m.program.symbols.hasRegister id = true
  labels : ∀ i ∈ m.program.instructions, ∀ id, i.label? = some id →
    m.program.symbols.hasLabel id = true

/-! ## Handles -/

theorem hasRegister_of_binds {t : SymbolTable} {r : Record} (h : Binds t r i) {id : RegisterId}
    (hi : i.register? = some id) : t.hasRegister id = true := by
  cases h with
  | pushRegister hn | popRegister hn => cases hi; exact SymbolTable.hasRegister_of_named hn
  | _ => cases hi

theorem hasLabel_of_binds {t : SymbolTable} {r : Record} (h : Binds t r i) {id : LabelId}
    (hi : i.label? = some id) : t.hasLabel id = true := by
  cases h with
  | label hn | jump hn | branch _ hn | call hn => cases hi; exact SymbolTable.hasLabel_of_named hn
  | _ => cases hi

theorem exists_get?_of_mem {q : Program} (h : i ∈ q.instructions) : ∃ k, q.get? k = some i := by
  obtain ⟨k, hk, rfl⟩ := Array.getElem_of_mem h
  exact ⟨k, Array.getElem?_eq_getElem hk⟩

theorem Inside.safe (hb : BoundTo l p) (h : Inside p m) : Safe p m := by
  refine ⟨h, fun hm => ?_, fun i hi id hr => ?_, fun i hi id hl => ?_⟩
  · have hlt : m.pc < p.instructions.size := h.pc_lt hm
    have hi : p.get? m.pc = some p.instructions[m.pc] := Array.getElem?_eq_getElem hlt
    obtain ⟨r, hr, hbi⟩ := hb.binds_of_get? hi
    refine ⟨_, r, next?_eq_some_iff.2 ⟨hm, (h.code.get? _).trans hi⟩, ?_, hbi.opcode⟩
    rw [← h.code.listing, hb.listing, hr]
  · obtain ⟨k, hk⟩ := exists_get?_of_mem (q := p) (h.code.instructions ▸ hi)
    obtain ⟨r, _, hbi⟩ := hb.binds_of_get? hk
    exact h.code.hasRegister id ▸ hasRegister_of_binds hbi hr
  · obtain ⟨k, hk⟩ := exists_get?_of_mem (q := p) (h.code.instructions ▸ hi)
    obtain ⟨r, _, hbi⟩ := hb.binds_of_get? hk
    exact h.code.hasLabel id ▸ hasLabel_of_binds hbi hl

/-- The instruction of the next step is bound from the record on its line. -/
theorem Inside.binds (hb : BoundTo l p) (h : Inside p m) (hi : m.next? = some i) :
    ∃ r, l.records[m.pc]? = some r ∧ Binds p.symbols r i :=
  hb.binds_of_get? ((h.code.get? _).symm.trans (next?_eq_some_iff.1 hi).2)

/-! ## Steps -/

/-- An instruction goes on at a line of the program or at the one behind it. -/
theorem Inside.line_le (hb : BoundTo l p) (h : Inside p m) (hm : m.halted = false) {n : Nat}
    {calls : List Nat} (hf : Flow m.program m.pc m.calls i (.ok (.line n)) calls) :
    n ≤ p.length := by
  cases hf with
  | next => exact h.pc_lt hm
  | jump _ ht | call ht => exact Nat.le_of_lt (hb.lt_of_labelTarget? (h.code.labelTarget? _ ▸ ht))
  | ret hc =>
    -- the line of a pending call is in the program, so the one behind it is at most its end
    obtain ⟨id, hid⟩ := h.calls _ (hc ▸ List.mem_cons_self)
    exact (Array.getElem?_eq_some_iff.1 hid).1

theorem Inside.calls_of_flow (h : Inside p m) (hi : m.next? = some i) {r : Except Fault Next}
    {calls : List Nat} (hf : Flow m.program m.pc m.calls i r calls) :
    ∀ k ∈ calls, ∃ id, p.get? k = some (.call id) := by
  cases hf with
  | next | halt | jump | fail => exact h.calls
  | call =>
    rintro k (_ | ⟨_, hk⟩)
    · exact ⟨_, (h.code.get? _).symm.trans (next?_eq_some_iff.1 hi).2⟩
    · exact h.calls k hk
  | ret hc => exact fun k hk => h.calls k (hc ▸ List.mem_cons_of_mem _ hk)

/-- **A step stays inside of the program.** -/
theorem Inside.step (hb : BoundTo l p) (h : Inside p m) (s : σ) :
    Inside p (step console m s).1.2 := by
  obtain ⟨_, hs⟩ | ⟨i, ⟨r, m'⟩, hi, ⟨hf, hc, hpc⟩, hs⟩ := step_cases m console s
  · rw [hs]
    exact ⟨h.code, h.pc_le, (Bool.noConfusion ·), h.calls⟩
  · have hm := (next?_eq_some_iff.1 hi).1
    have hcalls := h.calls_of_flow hi hf
    have hcode := h.code.trans hc
    rw [hs]
    rcases r with f | n | _
    · exact ⟨hcode, hpc ▸ h.pc_le, (Bool.noConfusion ·), hcalls⟩
    · refine ⟨hcode, h.line_le hb hm hf, fun hh => ?_, hcalls⟩
      simpa [settle, hcode.length] using hh
    · exact ⟨hcode, hpc ▸ h.pc_le, (Bool.noConfusion ·), hcalls⟩

/-- A machine that halts in order is at the end or behind the last line. -/
theorem halt_of_step (hb : BoundTo l p) (h : Inside p m) (hm : m.halted = false) {b : Bool}
    (hr : (step console m s).1.1 = .ok b) (hh : (step console m s).1.2.halted = true) :
    p.finish? = some (step console m s).1.2.pc ∨ (step console m s).1.2.pc = p.length := by
  have hin := h.step console hb s
  obtain ⟨hn, _⟩ | ⟨i, ⟨r, m'⟩, hi, ⟨hf, hc, hpc⟩, hs⟩ := step_cases m console s
  · obtain ⟨i, _, hi, _⟩ := (h.safe hb).next hm
    rw [hn] at hi
    cases hi
  · rw [hs] at hr hh hin ⊢
    rcases r with f | n | _
    · cases hr
    · have hle : m'.program.length ≤ n := of_decide_eq_true hh
      rw [(h.code.trans hc).length] at hle
      exact Or.inr (Nat.le_antisymm hin.pc_le hle)
    · obtain rfl := hf.eq_finish
      have hi' := (h.code.get? _).symm.trans (next?_eq_some_iff.1 hi).2
      obtain ⟨r, hr, hbi⟩ := hb.binds_of_get? hi'
      exact Or.inl (hpc ▸ hb.finish?_eq_some_iff.2 ⟨r, hr, hbi.opcode.symm⟩)

theorem fault_of_step {f : Fault} (hr : (step console m s).1.1 = .error f) :
    m.halted = false ∧ (step console m s).1.2.halted = true ∧ (step console m s).1.2.pc = m.pc := by
  obtain ⟨_, hs⟩ | ⟨i, ⟨r, m'⟩, hi, ⟨_, _, hpc⟩, hs⟩ := step_cases m console s
  · rw [hs] at hr
    cases hr
  · rw [hs] at hr ⊢
    rcases r with g | n | _
    · exact ⟨(next?_eq_some_iff.1 hi).1, rfl, hpc⟩
    · cases hr
    · cases hr

/-! ## Runs -/

theorem inside_start (hb : BoundTo l p) : Inside p (start p) :=
  ⟨.refl p, Nat.le_of_lt hb.entry_lt, fun _ => hb.entry_lt, nofun⟩

theorem inside_after (hb : BoundTo l p) (n : Nat) : Inside p (after console n (start p) s).1 :=
  after_induction console s (fun _ s h => h.step console hb s) (inside_start hb) n

theorem halt_of_after (hb : BoundTo l p) {n : Nat}
    (hr : ∀ r ∈ results console n (start p) s, ∃ b, r = .ok b)
    (hh : (after console n (start p) s).1.halted = true) :
    p.finish? = some (after console n (start p) s).1.pc ∨
      (after console n (start p) s).1.pc = p.length := by
  induction n with
  | zero => cases hh
  | succ n ih =>
    rw [after_succ] at hh ⊢
    rw [results_concat, List.forall_mem_append, List.forall_mem_singleton] at hr
    obtain ⟨hr, b, hlast⟩ := hr
    have hin := inside_after (s := s) console hb n
    -- a machine that had halted before stays where it was; otherwise the last step decides
    cases hm : (after console n (start p) s).1.halted with
    | true =>
      rw [step_of_halted console _ hm]
      exact ih hr hm
    | false => exact halt_of_step console hb hin hm hlast hh

theorem fault_of_after {n k : Nat} {f : Fault}
    (hr : (results console n m s)[k]? = some (.error f)) :
    (after console k m s).1.halted = false ∧ (after console n m s).1.halted = true ∧
      (after console n m s).1.pc = (after console k m s).1.pc := by
  have hlt : k < n := by simpa using (List.getElem?_eq_some_iff.1 hr).1
  rw [getElem?_results console _ _ hlt] at hr
  obtain ⟨hm, hh, hpc⟩ := fault_of_step console (Option.some.inj hr)
  have hlast := after_of_halted console (after console (k + 1) m s).2
    (m := (after console (k + 1) m s).1) (by rw [after_succ]; exact hh) (n - (k + 1))
  rw [← after_add, Nat.add_sub_of_le hlt] at hlast
  rw [hlast, after_succ]
  exact ⟨hm, hh, hpc⟩

/-- **Every state of every run of a bound program is safe.** A machine that halted in order is at
`END` or behind the last line, one that failed is on the line that failed. -/
theorem after_safe {l : Listing} {p : Program} (h : Program.ofListing l = .ok p) {σ : Type}
    (console : Console σ) (s : σ) (n : Nat) :
    let m := (after console n (start p) s).1
    let rs := results console n (start p) s
    Safe p m ∧
      ((∀ r ∈ rs, ∃ b, r = .ok b) → m.halted = true →
        p.finish? = some m.pc ∨ m.pc = p.length) ∧
      ∀ (k : Nat) (f : Fault), rs[k]? = some (.error f) →
        (after console k (start p) s).1.halted = false ∧ m.halted = true ∧
          m.pc = (after console k (start p) s).1.pc := by
  have hb := boundTo_of_ofListing h
  refine ⟨(inside_after console hb n).safe hb, ?_, ?_⟩
  · exact halt_of_after console hb
  · exact fun k f => fault_of_after console

/-- A call that returns, and then one return too many. -/
theorem after_safe_call_and_return :
    let l : Listing := ⟨[⟨.begin, ""⟩, ⟨.call, "f"⟩, ⟨.label, "f"⟩, ⟨.ret, ""⟩]⟩
    let p : Program := ⟨#[.begin, .call ⟨0⟩, .label ⟨0⟩, .ret], l,
      ⟨[], [⟨"f", some 2⟩], some 0, none⟩, 0⟩
    Program.ofListing l = .ok p ∧ Safe p (after silent 3 (start p) ()).1 ∧
      (after silent 3 (start p) ()).1.calls = [1] ∧
      (results silent 6 (start p) ())[5]? = some (.error (.runtime 4 (.cause .returnWithoutCall))) ∧
      (after silent 6 (start p) ()).1.halted = true ∧ (after silent 6 (start p) ()).1.pc = 3 := by
  intro l p
  have h : Program.ofListing l = .ok p := rfl
  have hf : (results silent 6 (start p) ())[5]? =
      some (.error (.runtime 4 (.cause .returnWithoutCall))) := rfl
  obtain ⟨_, hh, hpc⟩ := (after_safe h silent () 6).2.2 5 _ hf
  exact ⟨h, (after_safe h silent () 3).1, rfl, hf, hh, hpc⟩

end StackMachine.Machine
