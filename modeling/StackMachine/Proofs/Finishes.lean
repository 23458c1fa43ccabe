import StackMachine.Proofs.Runs

/-!
# Runs that end

A run that is given enough steps halts, fails, or goes on for ever. On its way it asks the console
for things.

* `Request`, `Machine.requests`: what the steps of a run ask the console for, in order.
* `Machine.run_of_le`, `Machine.requests_of_le`: **more steps do not change a run that has ended**;
  `Machine.after_of_run`: it is where its steps lead.
* `Machine.Finishes`: how a run ends; **`Finishes.unique`**.
-/

namespace StackMachine

/-! ## Requests -/

/-- What a machine asks its console for. -/
inductive Request
  | read
  | write (value : Int64)
  deriving DecidableEq, Repr

namespace Action

variable {μ ν : Type} {R : Outcome μ → Outcome ν → Prop} {a : Action μ} {a' : Action ν}

/-- The request of an action that needs the console. -/
def request? : Action μ → Option Request
  | settle _ => none
  | read _ => some .read
  | write value _ => some (.write value)

theorem Rel.request?_eq (h : Rel R a a') : a.request? = a'.request? := by
  cases h <;> rfl

end Action

namespace Machine

variable {σ : Type} (console : Console σ) {m m' m₁ m₂ : Machine} {s s' s₁ s₂ : σ} {i : Instruction}
  {r r₁ r₂ : Except Fault Unit} {fuel fuel' : Nat} {asked₁ asked₂ : List Request}

/-- The request of the next step. -/
def request? (m : Machine) : Option Request :=
  m.action?.bind Action.request?

/-- The requests of `n` steps. -/
def requests (n : Nat) (m : Machine) (s : σ) : List Request :=
  match n with
  | 0 => []
  | n + 1 => m.request?.toList ++ requests n (step console m s).1.2 (step console m s).2

theorem request?_of_next?_none (h : m.next? = none) : m.request? = none := by
  simp [request?, action?, h]

theorem request?_of_next?_some (h : m.next? = some i) :
    m.request? = (exec { m with steps := m.steps + 1 } i).request? := by
  simp [request?, action?, h]

theorem request?_of_rel {R : Instruction → Outcome Machine → Outcome Machine → Prop}
    (hnext : m'.next? = m.next?) (hrel : ∀ i, m.next? = some i → Action.Rel (R i)
      (exec { m with steps := m.steps + 1 } i) (exec { m' with steps := m'.steps + 1 } i)) :
    m'.request? = m.request? := by
  cases hi : m.next? with
  | none => rw [request?_of_next?_none hi, request?_of_next?_none (hnext.trans hi)]
  | some i =>
    rw [request?_of_next?_some hi, request?_of_next?_some (hnext.trans hi)]
    exact (hrel i hi).request?_eq.symm

theorem requests_of_halted (h : m.halted = true) (n : Nat) : requests console n m s = [] := by
  induction n with
  | zero => rfl
  | succ n ih =>
    have hr : m.request? = none := request?_of_next?_none (next?_of_halted h)
    rw [requests, hr, step_of_halted console s h, ih]
    rfl

/-! ## Runs that end -/

theorem run_of_ne (h : (step console m s).1.1 ≠ .ok true) (fuel : Nat) :
    run console (fuel + 1) m s = .finished ((step console m s).1.1.map fun _ => ())
      (step console m s).1.2 (step console m s).2 := by
  rw [run]
  split <;> simp_all [Except.map]

theorem run_of_ok (h : (step console m s).1.1 = .ok true) (fuel : Nat) :
    run console (fuel + 1) m s = run console fuel (step console m s).1.2 (step console m s).2 := by
  rw [run]
  split <;> simp_all

theorem halted_of_step (h : (step console m s).1.1 ≠ .ok true) :
    (step console m s).1.2.halted = true := by
  obtain ⟨_, hs⟩ | ⟨i, o, _, _, hs⟩ := step_cases m console s
  · simp [hs]
  · rw [hs] at h ⊢
    exact halted_settle h

/-- **More steps do not change how a run ended.** -/
theorem run_of_le (h : run console fuel m s = .finished r m' s') (hle : fuel ≤ fuel') :
    run console fuel' m s = .finished r m' s' := by
  induction fuel generalizing m s fuel' with
  | zero => simp [run] at h
  | succ fuel ih =>
    obtain ⟨fuel', rfl⟩ : ∃ k, fuel' = k + 1 := ⟨fuel' - 1, by omega⟩
    by_cases hr : (step console m s).1.1 = .ok true
    · rw [run_of_ok console hr] at h ⊢
      exact ih h (by omega)
    · rw [run_of_ne console hr] at h ⊢
      exact h

/-- **A run that has ended is where its steps lead.** -/
theorem after_of_run (h : run console fuel m s = .finished r m' s') :
    after console fuel m s = (m', s') := by
  induction fuel generalizing m s with
  | zero => cases h
  | succ fuel ih =>
    rw [after_step]
    by_cases hr : (step console m s).1.1 = .ok true
    · exact ih ((run_of_ok console hr fuel).symm.trans h)
    · rw [after_of_halted console _ (halted_of_step console hr)]
      rw [run_of_ne console hr] at h
      cases h
      rfl

theorem requests_of_le (h : run console fuel m s = .finished r m' s') (hle : fuel ≤ fuel') :
    requests console fuel' m s = requests console fuel m s := by
  induction fuel generalizing m s fuel' with
  | zero => simp [run] at h
  | succ fuel ih =>
    obtain ⟨fuel', rfl⟩ : ∃ k, fuel' = k + 1 := ⟨fuel' - 1, by omega⟩
    rw [requests, requests]
    by_cases hr : (step console m s).1.1 = .ok true
    · rw [run_of_ok console hr] at h
      rw [ih h (by omega)]
    · have hh := halted_of_step console hr
      rw [requests_of_halted console hh, requests_of_halted console hh]

/-- The run of a machine ends with a result and in a state, having asked the console for things. -/
def Finishes (m : Machine) (s : σ) (r : Except Fault Unit) (asked : List Request) (m' : Machine)
    (s' : σ) : Prop :=
  ∃ fuel, run console fuel m s = .finished r m' s' ∧ requests console fuel m s = asked

/-- **A run ends in one way only.** -/
theorem Finishes.unique (h₁ : Finishes console m s r₁ asked₁ m₁ s₁)
    (h₂ : Finishes console m s r₂ asked₂ m₂ s₂) :
    r₁ = r₂ ∧ asked₁ = asked₂ ∧ m₁ = m₂ ∧ s₁ = s₂ := by
  obtain ⟨fuel₁, hr₁, rfl⟩ := h₁
  obtain ⟨fuel₂, hr₂, rfl⟩ := h₂
  have hrun := (run_of_le console hr₁ (Nat.le_max_left fuel₁ fuel₂)).symm.trans
    (run_of_le console hr₂ (Nat.le_max_right fuel₁ fuel₂))
  have hask := (requests_of_le console hr₁ (Nat.le_max_left fuel₁ fuel₂)).symm.trans
    (requests_of_le console hr₂ (Nat.le_max_right fuel₁ fuel₂))
  injection hrun with hr hm hs
  exact ⟨hr, hask, hm, hs⟩

end Machine

end StackMachine
