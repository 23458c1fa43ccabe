import StackMachine.Console.Stream
import StackMachine.Proofs.Runs

/-!
# Faults at run time

An instruction raises faults that have no line yet, and hands on those of the console. The step
tags a fault with the line of the instruction unless it is tagged already.

* `Console.Answers`: a console answers with a fault; `Console.Untagged`: it leaves tagging to the
  machine, as the console on byte streams does (`Stream.console_untagged`).
* `Action.RaisesUntagged`, **`exec_raisesUntagged`**: the faults of an instruction.
* `Action.HandsOn`, **`exec_handsOn`**: the faults of the console are among them.
* **`fault_cases`**: the faults of a step.
-/

namespace StackMachine

theorem Fault.line?_eq_none_iff {f : Fault} : f.line? = none ↔ ∃ c, f = .cause c := by
  cases f <;> simp [Fault.line?]

/-! ## Consoles -/

/-- A console in some state answers a request with a fault. -/
def Console.Answers {σ : Type} (console : Console σ) (s : σ) (f : Fault) : Prop :=
  (console.read s).1 = .error f ∨ ∃ value, (console.write value s).1 = .error f

/-- A console leaves it to the machine to tag its faults with a line. -/
def Console.Untagged {σ : Type} (console : Console σ) : Prop :=
  ∀ s f, console.Answers s f → f.line? = none

theorem exists_of_mapError_eq_error {α : Type} {answer : Except Cause α} {f : Fault}
    (h : answer.mapError Fault.cause = .error f) : ∃ c, f = .cause c := by
  cases answer with
  | error c => exact ⟨c, (Except.error.inj h).symm⟩
  | ok a => cases h

/-- The console on byte streams answers with faults that have no line. -/
theorem Stream.untagged_of_answers {s : Stream} {f : Fault} (h : Stream.console.Answers s f) :
    f.line? = none := by
  rw [Fault.line?_eq_none_iff]
  rcases h with h | ⟨value, h⟩
  · exact exists_of_mapError_eq_error h
  · exact exists_of_mapError_eq_error h

theorem Stream.console_untagged : Stream.console.Untagged := fun _ _ => untagged_of_answers

/-! ## Instructions -/

namespace Action

variable {μ σ : Type} {a : Action μ}

/-- The faults of an action have no line, unless they are answers of the console. -/
def RaisesUntagged : Action μ → Prop
  | settle o => ∀ f, o.1 = .error f → f.line? = none
  | read resume => ∀ answer f, (resume answer).1 = .error f → f.line? = none ∨ answer = .error f
  | write _ resume => ∀ answer f, (resume answer).1 = .error f →
      f.line? = none ∨ answer = .error f

theorem RaisesUntagged.perform (h : a.RaisesUntagged) (console : Console σ) (s : σ) {f : Fault}
    (hf : (a.perform console s).1.1 = .error f) : f.line? = none ∨ console.Answers s f := by
  cases a with
  | settle o => exact Or.inl (h f hf)
  | read resume => exact (h _ f hf).imp_right Or.inl
  | write value resume => exact (h _ f hf).imp_right fun e => Or.inr ⟨value, e⟩

/-- A fault of the console is that of the action. -/
def HandsOn : Action μ → Prop
  | settle _ => True
  | read resume => ∀ f, (resume (.error f)).1 = .error f
  | write _ resume => ∀ f, (resume (.error f)).1 = .error f

end Action

namespace Machine

variable {m : Machine} {i : Instruction}

theorem untagged_fail {c : Cause} {f : Fault} (h : (m.fail c).1 = .error f) : f.line? = none := by
  cases h
  rfl

theorem untagged_jumping {id : LabelId} {f : Fault} (h : (m.jumping id).1 = .error f) :
    f.line? = none := by
  unfold jumping at h
  split at h
  · cases h
  · exact untagged_fail h

theorem popping_raisesUntagged {next : Int64 → Machine → Action Machine}
    (h : ∀ value m, (next value m).RaisesUntagged) : (m.popping next).RaisesUntagged := by
  unfold popping
  split
  · exact fun _ => untagged_fail
  · exact h _ _

theorem poppingTwo_raisesUntagged {next : Int64 → Int64 → Machine → Outcome Machine}
    (h : ∀ top second m f, (next top second m).1 = .error f → f.line? = none) :
    (m.poppingTwo next).RaisesUntagged :=
  popping_raisesUntagged fun top _ => popping_raisesUntagged fun second m => h top second m

theorem advance_fst_ne {f : Fault} : (m.advance).1 ≠ .error f := nofun

theorem pushing_fst_ne {value : Int64} {f : Fault} : (m.pushing value).1 ≠ .error f := nofun

/-- **An instruction raises faults without line**, whatever the console answers. -/
theorem exec_raisesUntagged (m : Machine) (i : Instruction) : (m.exec i).RaisesUntagged := by
  cases i with
  | begin | blank | label => exact fun _ h => absurd h advance_fst_ne
  | finish => exact nofun
  | push | pushRegister => exact fun _ h => absurd h pushing_fst_ne
  | pop | popRegister =>
    rw [exec]
    refine popping_raisesUntagged fun _ _ => ?_
    exact fun _ h => absurd h advance_fst_ne
  | arithmetic op =>
    rw [exec]
    refine poppingTwo_raisesUntagged fun top second m f h => ?_
    cases ho : op.apply? second top with
    | none => rw [ho] at h; exact untagged_fail h
    | some value => rw [ho] at h; exact absurd h pushing_fst_ne
  | read =>
    rintro (g | value) f h
    · cases h; exact Or.inr rfl
    · exact absurd h pushing_fst_ne
  | write =>
    rw [exec]
    refine popping_raisesUntagged fun _ _ => ?_
    rintro (g | _) f h
    · cases h; exact Or.inr rfl
    · exact absurd h advance_fst_ne
  | jump => exact fun _ => untagged_jumping
  | branch =>
    rw [exec]
    refine poppingTwo_raisesUntagged fun top second m f h => ?_
    dsimp only at h
    split_ifs at h
    · exact untagged_jumping h
    · exact absurd h advance_fst_ne
  | call id =>
    rw [exec]
    intro f h
    cases hj : m.program.symbols.jumpTarget id with
    | ok line => rw [hj] at h; cases h
    | error c => rw [hj] at h; exact untagged_fail h
  | ret =>
    rw [exec]
    intro f h
    cases hc : m.calls with
    | nil => rw [hc] at h; exact untagged_fail h
    | cons line calls => rw [hc] at h; cases h

theorem popping_handsOn {next : Int64 → Machine → Action Machine}
    (h : ∀ value m, (next value m).HandsOn) : (m.popping next).HandsOn := by
  unfold popping
  split
  · exact trivial
  · exact h _ _

/-- **An instruction hands on the faults of the console.** -/
theorem exec_handsOn (m : Machine) (i : Instruction) : (m.exec i).HandsOn := by
  cases i with
  | read => exact fun _ => rfl
  | write =>
    rw [exec]
    exact popping_handsOn fun _ _ _ => rfl
  | pop | popRegister =>
    rw [exec]
    exact popping_handsOn fun _ _ => trivial
  | arithmetic | branch =>
    rw [exec]
    exact popping_handsOn fun _ _ => popping_handsOn fun _ _ => trivial
  | _ => exact trivial

/-! ## Steps -/

theorem exists_of_settle_eq_error {o : Outcome Machine} {f : Fault} (h : (settle o).1 = .error f) :
    ∃ g, o.1 = .error g ∧ f = g.atRuntimeLine (o.2.pc + 1) := by
  obtain ⟨g | n | _, m'⟩ := o
  · exact ⟨g, rfl, (Except.error.inj h).symm⟩
  · cases h
  · cases h

theorem settle_of_error {o : Outcome Machine} {f : Fault} (h : o.1 = .error f) :
    (settle o).1 = .error (f.atRuntimeLine (o.2.pc + 1)) := by
  obtain ⟨r, m'⟩ := o
  obtain rfl : r = .error f := h
  rfl

/-- **A fault of a step** is tagged with the line of the instruction, or it is an answer of the
console that was tagged before. -/
theorem fault_cases {σ : Type} (console : Console σ) {s : σ} {f : Fault}
    (h : (step console m s).1.1 = .error f) : ∃ i, m.next? = some i ∧
      ((∃ c, f = .runtime (m.pc + 1) (.cause c)) ∨ f.line?.isSome ∧ console.Answers s f) := by
  cases hi : m.next? with
  | none => rw [step_of_next?_none console s hi] at h; cases h
  | some i =>
    refine ⟨i, rfl, ?_⟩
    rw [step_of_next?_some console s hi] at h
    obtain ⟨g, hg, rfl⟩ := exists_of_settle_eq_error h
    have hpc := ((exec_all { m with steps := m.steps + 1 } i).perform console s).pc
    cases hline : g.line? with
    | none =>
      obtain ⟨c, rfl⟩ := Fault.line?_eq_none_iff.1 hline
      exact Or.inl ⟨c, by rw [Fault.atRuntimeLine_cause, hpc]⟩
    | some line =>
      have hsome : g.line?.isSome := Option.isSome_of_eq_some hline
      have hanswer := (exec_raisesUntagged _ i).perform console s hg
      rw [Fault.atRuntimeLine_of_isSome hsome]
      exact Or.inr ⟨hsome, hanswer.resolve_left (by simp [hline])⟩

end Machine

end StackMachine
