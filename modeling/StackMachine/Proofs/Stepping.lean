import Mathlib.Algebra.Group.Nat.Defs
import StackMachine.Proofs.Finishes
import StackMachine.Proofs.Safety

/-!
# Stepping and running

A machine may be stepped for a while and run from there on: it ends as if it had been run from the
beginning. Once it has halted, neither stepping nor running does anything.

* `Machine.executed`: the instructions that the steps of a run execute; **`steps_after`**: the
  machine counts them.
* `finishes_of_step`, `exists_finishes_step`: a run with its first step taken off; from them
  **`finishes_of_after`** and `exists_finishes_after`, with any number of steps taken off.
* `halted_step_iff`: what halts a machine; `results_of_halted`: **it is final**.
* **`run_continues_steps`**: all of it, for every state of every run of a bound program.
-/

namespace StackMachine.Machine

variable {l : Listing} {p : Program} {m m' : Machine} {i : Instruction} {σ : Type}
  (console : Console σ) {s s' : σ} {r : Except Fault Unit} {asked : List Request}

/-! ## Counting instructions -/

/-- The instructions that `n` steps execute; one that fails is executed, too. -/
def executed (n : Nat) (m : Machine) (s : σ) : List Instruction :=
  match n with
  | 0 => []
  | n + 1 => m.next?.toList ++ executed n (step console m s).1.2 (step console m s).2

theorem exec_steps (m : Machine) (i : Instruction) : (m.exec i).All (·.2.steps = m.steps) := by
  have hjump : ∀ stack id, (jumping { m with stack } id).2.steps = m.steps := by
    intro stack id
    unfold jumping
    split <;> rfl
  cases i with
  | begin | blank | label | finish | push | pushRegister => exact rfl
  | pop | popRegister =>
    rw [exec]
    exact popping_all rfl fun _ _ => rfl
  | arithmetic op =>
    rw [exec]
    refine poppingTwo_all (fun _ => rfl) fun top second _ => ?_
    cases op.apply? second top <;> rfl
  | read => rintro (_ | _) <;> rfl
  | write =>
    rw [exec]
    refine popping_all rfl fun _ _ => ?_
    rintro (_ | _) <;> rfl
  | jump id => exact hjump m.stack id
  | branch =>
    rw [exec]
    refine poppingTwo_all (fun _ => rfl) fun _ _ _ => ?_
    dsimp only
    split_ifs
    · exact hjump _ _
    · rfl
  | call id =>
    simp only [exec, Action.All]
    cases m.program.symbols.jumpTarget id <;> rfl
  | ret =>
    simp only [exec, Action.All]
    cases m.calls <;> rfl

theorem steps_settle (o : Outcome Machine) : (settle o).2.steps = o.2.steps := by
  obtain ⟨_ | _ | _, m⟩ := o <;> rfl

theorem steps_step (m : Machine) (s : σ) :
    (step console m s).1.2.steps = m.steps + UInt64.ofNat m.next?.toList.length := by
  cases hi : m.next? with
  | none =>
    rw [step_of_next?_none console s hi]
    exact (UInt64.add_zero m.steps).symm
  | some i =>
    rw [step_of_next?_some console s hi, steps_settle]
    exact (exec_steps { m with steps := m.steps + 1 } i).perform console s

/-- **The machine counts the instructions it executes**, modulo `2 ^ 64`. -/
theorem steps_after (n : Nat) (m : Machine) (s : σ) : (after console n m s).1.steps =
    m.steps + UInt64.ofNat (executed console n m s).length := by
  induction n generalizing m s with
  | zero => exact (UInt64.add_zero m.steps).symm
  | succ n ih =>
    rw [after_step, ih, steps_step, executed, List.length_append, UInt64.ofNat_add,
      UInt64.add_assoc]

/-! ## Taking steps off a run -/

theorem finishes_of_halted (h : m.halted = true) : Finishes console m s (.ok ()) [] m s := by
  refine ⟨1, ?_, requests_of_halted console h 1⟩
  rw [run, step_of_halted console s h]

theorem finishes_of_halt (hb : (step console m s).1.1 = .ok false) :
    Finishes console m s (.ok ()) m.request?.toList (step console m s).1.2
      (step console m s).2 := by
  refine ⟨1, ?_, List.append_nil _⟩
  rw [run_of_ne console (by rw [hb]; simp), hb]
  rfl

theorem finishes_of_step {b : Bool} (hb : (step console m s).1.1 = .ok b)
    (h : Finishes console (step console m s).1.2 (step console m s).2 r asked m' s') :
    Finishes console m s r (m.request?.toList ++ asked) m' s' := by
  cases b with
  | true =>
    obtain ⟨fuel, hrun, rfl⟩ := h
    exact ⟨fuel + 1, (run_of_ok console hb fuel).trans hrun, rfl⟩
  | false =>
    -- the step has halted the machine, and the rest of the run finds it so
    have hhalted := halted_of_step console (m := m) (s := s) (by rw [hb]; simp)
    obtain ⟨rfl, rfl, rfl, rfl⟩ := h.unique console (finishes_of_halted console hhalted)
    rw [List.append_nil]
    exact finishes_of_halt console hb

theorem exists_finishes_step {b : Bool} (hb : (step console m s).1.1 = .ok b)
    (h : Finishes console m s r asked m' s') : ∃ asked',
      Finishes console (step console m s).1.2 (step console m s).2 r asked' m' s' := by
  cases b with
  | true =>
    obtain ⟨fuel | fuel, hrun, -⟩ := h
    · cases hrun
    · exact ⟨_, fuel, (run_of_ok console hb fuel).symm.trans hrun, rfl⟩
  | false =>
    have hhalted := halted_of_step console (m := m) (s := s) (by rw [hb]; simp)
    obtain ⟨rfl, -, rfl, rfl⟩ := h.unique console (finishes_of_halt console hb)
    exact ⟨[], finishes_of_halted console hhalted⟩

theorem finishes_of_after {k : Nat} (hk : ∀ x ∈ results console k m s, ∃ b, x = .ok b)
    (h : Finishes console (after console k m s).1 (after console k m s).2 r asked m' s') :
    Finishes console m s r (requests console k m s ++ asked) m' s' := by
  induction k generalizing m s with
  | zero => exact h
  | succ k ih =>
    rw [results_succ, List.forall_mem_cons] at hk
    obtain ⟨⟨b, hb⟩, hk⟩ := hk
    rw [requests, List.append_assoc]
    exact finishes_of_step console hb (ih hk h)

theorem exists_finishes_after {k : Nat} (hk : ∀ x ∈ results console k m s, ∃ b, x = .ok b)
    (h : Finishes console m s r asked m' s') : ∃ asked',
      Finishes console (after console k m s).1 (after console k m s).2 r asked' m' s' := by
  induction k generalizing m s asked with
  | zero => exact ⟨asked, h⟩
  | succ k ih =>
    rw [results_succ, List.forall_mem_cons] at hk
    obtain ⟨⟨b, hb⟩, hk⟩ := hk
    obtain ⟨asked', h'⟩ := exists_finishes_step console hb h
    exact ih hk h'

/-! ## Halting -/

theorem Flow.ne_line_of_finish {pc n : Nat} {calls calls' : List Nat} :
    ¬ Flow p pc calls .finish (.ok (.line n)) calls' := by
  intro h
  cases h with
  | next hi => exact hi List.mem_cons_self
  | jump hi => simp at hi

/-- **A machine halts at `END`, with a fault or behind the last line**, and nowhere else. -/
theorem halted_step_iff (hb : BoundTo l p) (h : Inside p m) (hm : m.halted = false) (s : σ) :
    (step console m s).1.2.halted = true ↔ m.next? = some .finish ∨
      (∃ f, (step console m s).1.1 = .error f) ∨ (step console m s).1.2.pc = p.length := by
  obtain ⟨hn, -⟩ | ⟨i, ⟨r, m'⟩, hi, ⟨hf, hc, -⟩, hs⟩ := step_cases m console s
  · obtain ⟨i, _, hi, -⟩ := (h.safe hb).next hm
    rw [hn] at hi
    cases hi
  · rw [hs, hi]
    rcases r with f | n | _
    · exact ⟨fun _ => .inr (.inl ⟨_, rfl⟩), fun _ => rfl⟩
    · have hne : i ≠ .finish := by
        rintro rfl
        exact Flow.ne_line_of_finish hf
      have hle : n ≤ p.length := h.line_le hb hm hf
      have hlen : m'.program.length = p.length := (h.code.trans hc).length
      constructor
      · intro hh
        have hge : m'.program.length ≤ n := of_decide_eq_true hh
        exact .inr (.inr (Nat.le_antisymm hle (hlen ▸ hge)))
      · rintro (hfinish | ⟨f, hfail⟩ | hpc)
        · exact absurd (Option.some.inj hfinish) hne
        · cases hfail
        · exact decide_eq_true (Nat.le_of_eq (hlen.trans hpc.symm))
    · obtain rfl : i = .finish := hf.eq_finish
      exact ⟨fun _ => .inl rfl, fun _ => rfl⟩

theorem results_of_halted (h : m.halted = true) (n : Nat) :
    results console n m s = List.replicate n (.ok false) := by
  induction n with
  | zero => rfl
  | succ n ih => rw [results_succ, step_of_halted console s h, ih, List.replicate_succ]

/-! ## Runs of bound programs -/

/-- **Running goes on where stepping stopped.** If none of `k` steps failed, running the machine
from there on ends if and only if running it from the beginning does, with the same result and in
the same state, and the requests of both parts are those of the whole. A machine that runs is
halted by `END`, by a fault or by coming behind the last line, and by nothing else; once it has
halted, no step and no run changes it or asks the console for anything. It has counted the
instructions that it executed. -/
theorem run_continues_steps {l : Listing} {p : Program} (h : Program.ofListing l = .ok p)
    {σ : Type} (console : Console σ) (s : σ) (k : Nat) :
    let m := (after console k (start p) s).1
    let t := (after console k (start p) s).2
    ((∀ x ∈ results console k (start p) s, ∃ b, x = .ok b) →
      ((∃ r asked m' t', Finishes console m t r asked m' t') ↔
        ∃ r asked m' t', Finishes console (start p) s r asked m' t') ∧
      ∀ r asked m' t', Finishes console m t r asked m' t' →
        Finishes console (start p) s r (requests console k (start p) s ++ asked) m' t') ∧
    (m.halted = false → ((step console m t).1.2.halted = true ↔ m.next? = some .finish ∨
      (∃ f, (step console m t).1.1 = .error f) ∨ (step console m t).1.2.pc = p.length)) ∧
    (m.halted = true →
      (∀ n, results console n m t = List.replicate n (.ok false) ∧
        after console n m t = (m, t) ∧ requests console n m t = []) ∧
      Finishes console m t (.ok ()) [] m t) ∧
    m.steps.toNat = (executed console k (start p) s).length % 2 ^ 64 := by
  intro m t
  have hb := boundTo_of_ofListing h
  have hin : Inside p m := inside_after console hb k
  refine ⟨fun hk => ⟨⟨?_, ?_⟩, fun r asked m' t' => finishes_of_after console hk⟩,
    fun hm => halted_step_iff console hb hin hm t, fun hm => ⟨fun n => ?_, ?_⟩, ?_⟩
  · rintro ⟨r, asked, m', t', hf⟩
    exact ⟨r, _, m', t', finishes_of_after console hk hf⟩
  · rintro ⟨r, asked, m', t', hf⟩
    obtain ⟨asked', hf'⟩ := exists_finishes_after console hk hf
    exact ⟨r, asked', m', t', hf'⟩
  · exact ⟨results_of_halted console hm n, after_of_halted console t hm n,
      requests_of_halted console hm n⟩
  · exact finishes_of_halted console hm
  · have hsteps := steps_after console k (start p) s
    rw [show (start p).steps = 0 from rfl, UInt64.zero_add] at hsteps
    rw [hsteps, UInt64.toNat_ofNat']

/-- Two steps and then a run write what a run from the beginning writes. The line behind the end
would fail, but is never executed. -/
theorem run_continues_steps_up_to_end :
    let l : Listing :=
      ⟨[⟨.begin, ""⟩, ⟨.push, "4"⟩, ⟨.write, ""⟩, ⟨.finish, ""⟩, ⟨.pop, ""⟩]⟩
    let p : Program :=
      ⟨#[.begin, .push 4, .write, .finish, .pop], l, ⟨[], [], some 0, some 3⟩, 0⟩
    let m k := (after silent k (start p) ()).1
    Program.ofListing l = .ok p ∧ results silent 2 (start p) () = [.ok true, .ok true] ∧
      Finishes silent (m 2) () (.ok ()) [.write 4] (m 4) () ∧
      Finishes silent (start p) () (.ok ()) [.write 4] (m 4) () ∧
      (m 3).halted = false ∧ (m 3).next? = some .finish ∧ (m 4).halted = true ∧
      results silent 2 (m 4) () = [.ok false, .ok false] ∧ (m 4).steps.toNat = 4 := by
  intro l p m
  have h : Program.ofListing l = .ok p := rfl
  have hres : results silent 2 (start p) () = [.ok true, .ok true] := rfl
  have hok : ∀ x ∈ results silent 2 (start p) (), ∃ b, x = .ok b := by
    rw [hres]
    simp
  have hasked : requests silent 2 (start p) () = [] := rfl
  have hrest : Finishes silent (m 2) () (.ok ()) [.write 4] (m 4) () := ⟨2, rfl, rfl⟩
  have hmiddle : (m 3).halted = false := rfl
  have hnext : (m 3).next? = some .finish := rfl
  have hcount : (executed silent 4 (start p) ()).length = 4 := by decide +kernel
  have hrun := ((run_continues_steps h silent () 2).1 hok).2 _ _ _ _ hrest
  have hend : (m 4).halted = true :=
    ((run_continues_steps h silent () 3).2.1 hmiddle).2 (.inl hnext)
  obtain ⟨-, -, hhalted, hsteps⟩ := run_continues_steps h silent () 4
  rw [hasked] at hrun
  rw [hcount] at hsteps
  exact ⟨h, hres, hrest, hrun, hmiddle, hnext, hend, ((hhalted hend).1 2).1, hsteps⟩

end StackMachine.Machine
