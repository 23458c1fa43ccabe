import StackMachine.Proofs.Faults
import StackMachine.Proofs.Finishes

/-!
# What lies below

An instruction takes values from the top of the stack and returns to the latest call. What lies
below the values and calls that a piece of code uses is hidden from it: the code does the same
above any other values and calls, and leaves them as they were.

* `Machine.above`: a machine with more values and calls below its own.
* `Action.Starves`: an instruction finds no value or no call to take.
* **`exec_above`**: an instruction that does not starve does the same above.
* `Fault.Starved`, **`step_above`**, **`after_above`**: steps and runs above.
* **`fragment_runs_above`**: a run in which no step fails is the same above.
-/

namespace StackMachine

/-! ## Instructions that starve -/

/-- A value or a pending call was wanted, and there was none. -/
def Fault.Starved (f : Fault) : Prop :=
  f.root = .emptyStack ∨ f.root = .returnWithoutCall

/-- An instruction finds no value or no pending call to take. -/
inductive Action.Starves : Action Machine → Prop
  | value (m : Machine) : Starves (.settle (m.fail .emptyStack))
  | call (m : Machine) : Starves (.settle (m.fail .returnWithoutCall))

theorem Action.Starves.exists_fault {a : Action Machine} (h : a.Starves) {σ : Type}
    (console : Console σ) (s : σ) :
    ∃ f, (a.perform console s).1.1 = .error f ∧ f.Starved := by
  cases h with
  | value m => exact ⟨_, rfl, .inl rfl⟩
  | call m => exact ⟨_, rfl, .inr rfl⟩

namespace Machine

variable {values : List Int64} {calls : List Nat} {m : Machine} {i : Instruction}

/-- The machine with more values below its own and more calls pending before its own. The topmost
value and the latest call come first. -/
def above (values : List Int64) (calls : List Nat) (m : Machine) : Machine :=
  { m with stack := ⟨m.stack.values ++ values⟩, calls := m.calls ++ calls }

/-! ## Instructions -/

/-- The outcome is the same above. -/
def OutcomeAbove (values : List Int64) (calls : List Nat) (o o' : Outcome Machine) : Prop :=
  o' = (o.1, o.2.above values calls)

/-- The action starves, or it is the same above. -/
def ActionAbove (values : List Int64) (calls : List Nat) (a a' : Action Machine) : Prop :=
  a.Starves ∨ Action.Rel (OutcomeAbove values calls) a a'

theorem ActionAbove.settle {o o' : Outcome Machine} (h : OutcomeAbove values calls o o') :
    ActionAbove values calls (.settle o) (.settle o') :=
  .inr (.settle h)

theorem popping_above (m : Machine) {next : Int64 → Machine → Action Machine}
    (h : ∀ value m, ActionAbove values calls (next value m) (next value (m.above values calls))) :
    ActionAbove values calls (m.popping next) ((m.above values calls).popping next) := by
  obtain ⟨program, pc, ⟨_ | ⟨value, rest⟩⟩, pending, halted, steps⟩ := m
  · exact .inl (.value _)
  · exact h value ⟨program, pc, ⟨rest⟩, pending, halted, steps⟩

theorem poppingTwo_above (m : Machine) {next : Int64 → Int64 → Machine → Outcome Machine}
    (h : ∀ top second m, OutcomeAbove values calls (next top second m)
      (next top second (m.above values calls))) :
    ActionAbove values calls (m.poppingTwo next) ((m.above values calls).poppingTwo next) :=
  popping_above m fun top m => popping_above m fun second m => .settle (h top second m)

theorem jumping_above (m : Machine) (id : LabelId) :
    OutcomeAbove values calls (m.jumping id) ((m.above values calls).jumping id) := by
  have hsymbols : (m.above values calls).program = m.program := rfl
  unfold jumping
  rw [hsymbols]
  cases m.program.symbols.jumpTarget id <;> rfl

/-- **An instruction that does not starve does the same above.** -/
theorem exec_above (m : Machine) (i : Instruction) :
    ActionAbove values calls (m.exec i) ((m.above values calls).exec i) := by
  cases i with
  | begin | blank | label | finish | push | pushRegister => exact .settle rfl
  | pop | popRegister =>
    rw [exec, exec]
    exact popping_above m fun _ _ => .settle rfl
  | arithmetic op =>
    refine poppingTwo_above m fun top second m => ?_
    cases op.apply? second top <;> rfl
  | read =>
    refine .inr (.read ?_)
    rintro (_ | _) <;> rfl
  | write =>
    rw [exec, exec]
    refine popping_above m fun value m => .inr (.write value ?_)
    rintro (_ | _) <;> rfl
  | jump id => exact .settle (jumping_above m id)
  | branch test id =>
    refine poppingTwo_above m fun top second m => ?_
    dsimp only
    split_ifs
    · exact jumping_above { m with stack := m.stack.push top } id
    · rfl
  | call id =>
    have hsymbols : (m.above values calls).program = m.program := rfl
    simp only [exec, hsymbols]
    refine .settle ?_
    cases m.program.symbols.jumpTarget id <;> rfl
  | ret =>
    obtain ⟨program, pc, stack, _ | ⟨line, pending⟩, halted, steps⟩ := m
    · exact .inl (.call _)
    · exact .settle rfl

/-! ## Steps -/

theorem settle_above (o : Outcome Machine) : settle (o.1, o.2.above values calls) =
    ((settle o).1, (settle o).2.above values calls) := by
  obtain ⟨_ | _ | _, m⟩ := o <;> rfl

variable {σ : Type} (console : Console σ) (s : σ)

theorem rel_above (values : List Int64) (calls : List Nat) (hi : m.next? = some i)
    (h : ∀ f, (step console m s).1.1 = .error f → ¬ f.Starved) :
    Action.Rel (OutcomeAbove values calls) (exec { m with steps := m.steps + 1 } i)
      (exec { m.above values calls with steps := m.steps + 1 } i) := by
  refine (exec_above { m with steps := m.steps + 1 } i).resolve_left fun hstarves => ?_
  obtain ⟨f, hf, hstarved⟩ := hstarves.exists_fault console s
  rw [step_of_next?_some console s hi, settle_of_error hf] at h
  refine h _ rfl ?_
  simpa [Fault.Starved] using hstarved

/-- **A step that fails for no want of values or calls is the same above.** -/
theorem step_above (values : List Int64) (calls : List Nat)
    (h : ∀ f, (step console m s).1.1 = .error f → ¬ f.Starved) :
    (m.above values calls).request? = m.request? ∧
      step console (m.above values calls) s = (((step console m s).1.1,
        (step console m s).1.2.above values calls), (step console m s).2) := by
  have hnext : (m.above values calls).next? = m.next? := rfl
  have hrel := fun i hi => rel_above console s values calls (i := i) hi h
  obtain ⟨hstep, hs⟩ := step_of_rel console s
    (S := fun r r' => r' = (r.1, r.2.above values calls)) hnext rfl fun i hi =>
      (hrel i hi).mono fun o _ ho => (congrArg settle ho).trans (settle_above o)
  exact ⟨request?_of_rel hnext hrel, Prod.ext hstep hs⟩

/-! ## Runs -/

/-- **A run in which no step fails for want of values or calls is the same above.** -/
theorem after_above (values : List Int64) (calls : List Nat) {n : Nat}
    (h : ∀ r ∈ results console n m s, ∀ f, r = .error f → ¬ f.Starved) :
    results console n (m.above values calls) s = results console n m s ∧
      requests console n (m.above values calls) s = requests console n m s ∧
      after console n (m.above values calls) s =
        ((after console n m s).1.above values calls, (after console n m s).2) := by
  induction n generalizing m s with
  | zero => exact ⟨rfl, rfl, rfl⟩
  | succ n ih =>
    rw [results_succ, List.forall_mem_cons] at h
    obtain ⟨hask, hstep⟩ := step_above console s values calls h.1
    obtain ⟨hres, hreq, hafter⟩ := ih _ h.2
    rw [results_succ, requests, after_step, hstep, hask, hres, hreq, hafter]
    exact ⟨rfl, rfl, rfl⟩

/-- **A piece of code cannot see below the values and calls that it uses.** If none of `n` steps
fails, then above any other values and calls they have the same results, ask the console for the
same things and leave it in the same state; the machine is in the same state, too, above the same
values and calls. -/
theorem fragment_runs_above (m : Machine) (values : List Int64) (calls : List Nat) {σ : Type}
    (console : Console σ) (s : σ) (n : Nat) (h : ∀ r ∈ results console n m s, ∃ b, r = .ok b) :
    results console n (m.above values calls) s = results console n m s ∧
      requests console n (m.above values calls) s = requests console n m s ∧
      (after console n (m.above values calls) s).2 = (after console n m s).2 ∧
      (after console n (m.above values calls) s).1 =
        (after console n m s).1.above values calls := by
  have hok : ∀ r ∈ results console n m s, ∀ f, r = .error f → ¬ f.Starved := by
    rintro r hr f rfl
    obtain ⟨b, hb⟩ := h _ hr
    cases hb
  obtain ⟨hres, hreq, hafter⟩ := after_above console s values calls hok
  rw [hafter]
  exact ⟨hres, hreq, rfl, rfl⟩

/-- A subroutine multiplies the two values that it is given and returns. It does so in the middle
of another calculation, too. -/
theorem fragment_runs_above_subroutine :
    let l : Listing := ⟨[⟨.begin, ""⟩, ⟨.push, "2"⟩, ⟨.push, "3"⟩, ⟨.call, "mul"⟩, ⟨.finish, ""⟩,
      ⟨.label, "mul"⟩, ⟨.arithmetic .mul, ""⟩, ⟨.ret, ""⟩]⟩
    let p : Program := ⟨#[.begin, .push 2, .push 3, .call ⟨0⟩, .finish, .label ⟨0⟩,
      .arithmetic .mul, .ret], l, ⟨[], [⟨"mul", some 5⟩], some 0, some 4⟩, 0⟩
    let m := (after silent 4 (start p) ()).1
    let m' := (after silent 3 (m.above [40, 50] [1]) ()).1
    Program.ofListing l = .ok p ∧ m.halted = false ∧ m.pc = 5 ∧ m.stack.values = [3, 2] ∧
      m.calls = [3] ∧ results silent 3 m () = [.ok true, .ok true, .ok true] ∧
      m'.pc = 4 ∧ m'.stack.values = [6, 40, 50] ∧ m'.calls = [1] := by
  intro l p m m'
  have hres : results silent 3 m () = [.ok true, .ok true, .ok true] := by decide +kernel
  have hok : ∀ r ∈ results silent 3 m (), ∃ b, r = .ok b := by simp [hres]
  have hm' : m' = (after silent 3 m ()).1.above [40, 50] [1] :=
    (fragment_runs_above m [40, 50] [1] silent () 3 hok).2.2.2
  rw [hm']
  exact ⟨by decide +kernel, rfl, rfl, rfl, rfl, hres, rfl, by decide +kernel, rfl⟩

end Machine

end StackMachine
