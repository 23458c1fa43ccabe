import Mathlib.Data.Int.ModEq
import StackMachine.Proofs.Failing

/-!
# Machine arithmetic

Machine integers stand for the integers modulo `2 ^ 64`, so that sums, differences and products are
those of integers. Quotients are cut off towards zero, and only one of them is out of range.

* `toInt_modEq_iff`: **a machine integer is known by its residue**.
* `Arithmetic.IsQuotient`: the quotient of two integers, by what remains; `isQuotient_iff`.
* `Arithmetic.Computes`: what an operation has to give, said of integers.
* **`apply_eq_some_iff`**, `apply_eq_none_iff`: it gives just that, and nothing only if it divides
  by zero.
* **`step_arithmetic`**: the step of an operation on any two values.
-/

namespace StackMachine

variable {second top value : Int64} {a b q n : Int} {op : Arithmetic}

/-! ## Residues -/

/-- **A machine integer is known by its residue.** -/
theorem toInt_modEq_iff : value.toInt ≡ n [ZMOD 2 ^ 64] ↔ value.toInt = n.bmod (2 ^ 64) := by
  constructor
  · intro h
    have hmod : value.toInt % ((2 ^ 64 : Nat) : Int) = n % ((2 ^ 64 : Nat) : Int) := h
    calc value.toInt = (value.toInt % ((2 ^ 64 : Nat) : Int)).bmod (2 ^ 64) := by
          rw [Int.emod_bmod]
          exact (Int64.toInt_bmod value).symm
      _ = n.bmod (2 ^ 64) := by rw [hmod, Int.emod_bmod]
  · intro h
    rw [h]
    exact Int.bmod_emod

namespace Arithmetic

/-! ## Quotients -/

/-- An integer is the quotient of two others: what remains is smaller than the divisor and is zero
or has the sign of the dividend. -/
def IsQuotient (b a q : Int) : Prop :=
  ∃ r, b = q * a + r ∧ r.natAbs < a.natAbs ∧ (r = 0 ∨ r.sign = b.sign)

theorem isQuotient_iff (ha : a ≠ 0) : IsQuotient b a q ↔ q = b.tdiv a := by
  constructor
  · rintro ⟨r, hb, hlt, hsign⟩
    have hsum : r + a * q = b := by rw [hb, Int.mul_comm a q, Int.add_comm]
    -- the sign of the dividend decides which of the two ways to divide this is
    obtain hle | hle := Int.le_total 0 b
    · have hr : 0 ≤ r := by
        obtain rfl | hr := hsign
        · exact Int.le_refl 0
        · exact Int.sign_nonneg_iff.1 (hr ▸ Int.sign_nonneg_iff.2 hle)
      exact ((Int.tdiv_tmod_unique hle ha).2 ⟨hsum, hr, by omega⟩).1.symm
    · have hr : r ≤ 0 := by
        obtain rfl | hr := hsign
        · exact Int.le_refl 0
        · exact Int.sign_nonpos_iff.1 (hr ▸ Int.sign_nonpos_iff.2 hle)
      exact ((Int.tdiv_tmod_unique' hle ha).2 ⟨hsum, by omega, hr⟩).1.symm
  · rintro rfl
    refine ⟨b.tmod a, ?_, ?_, ?_⟩
    · rw [Int.mul_comm, Int.mul_tdiv_add_tmod]
    · rw [Int.natAbs_tmod]
      exact Nat.mod_lt _ (Int.natAbs_pos.2 ha)
    · rw [Int.sign_tmod]
      split_ifs with hdvd
      · exact .inl (Int.tmod_eq_zero_of_dvd hdvd)
      · exact .inr rfl

/-! ## Operations -/

/-- What an operation on the second and the topmost value has to give. -/
def Computes (second top value : Int64) : Arithmetic → Prop
  | add => value.toInt ≡ second.toInt + top.toInt [ZMOD 2 ^ 64]
  | sub => value.toInt ≡ second.toInt - top.toInt [ZMOD 2 ^ 64]
  | mul => value.toInt ≡ second.toInt * top.toInt [ZMOD 2 ^ 64]
  | div => top ≠ 0 ∧
    if second = Int64.minValue ∧ top = -1 then value = Int64.minValue
    else IsQuotient second.toInt top.toInt value.toInt

/-- The quotient is that of integers, with the exception of `-2 ^ 63` by `-1`. -/
theorem computes_div_iff : div.Computes second top value ↔ top ≠ 0 ∧ value = second / top := by
  refine and_congr_right fun htop => ?_
  have hne : top.toInt ≠ 0 := fun h => htop (Int64.toInt_inj.1 h)
  split_ifs with hmin
  · obtain ⟨rfl, rfl⟩ := hmin
    rw [Int64.minValue_div_neg_one]
  · have hdiv : (second / top).toInt = second.toInt.tdiv top.toInt := by
      by_cases hs : second = Int64.minValue
      · exact Int64.toInt_div_of_ne_right _ _ fun ht => hmin ⟨hs, ht⟩
      · exact Int64.toInt_div_of_ne_left _ _ hs
    rw [isQuotient_iff hne, ← hdiv, Int64.toInt_inj]

theorem eq_some_iff_modEq {result : Int64} (h : result.toInt = n.bmod (2 ^ 64)) :
    some result = some value ↔ value.toInt ≡ n [ZMOD 2 ^ 64] := by
  rw [toInt_modEq_iff, ← h, Int64.toInt_inj, Option.some_inj]
  exact eq_comm

/-- **An operation gives what it has to give, and nothing else.** -/
theorem apply_eq_some_iff : op.apply? second top = some value ↔ op.Computes second top value := by
  cases op with
  | add => exact eq_some_iff_modEq (Int64.toInt_add second top)
  | sub => exact eq_some_iff_modEq (Int64.toInt_sub second top)
  | mul => exact eq_some_iff_modEq (Int64.toInt_mul second top)
  | div =>
    rw [computes_div_iff]
    unfold Arithmetic.apply?
    split_ifs with htop
    · simp [htop]
    · simp [htop, eq_comm]

theorem apply_eq_none_iff : op.apply? second top = none ↔ op = .div ∧ top = 0 := by
  unfold Arithmetic.apply?
  cases op <;> simp

end Arithmetic

namespace Machine

variable {m : Machine} {rest : List Int64} {σ : Type} (console : Console σ) (s : σ)

/-! ## Steps -/

theorem step_arithmetic_of_some (hi : m.next? = some (.arithmetic op))
    (hv : m.stack.values = top :: second :: rest) (hop : op.apply? second top = some value) :
    step console m s = ((.ok (!decide (m.program.length ≤ m.pc + 1)),
      { m with pc := m.pc + 1, stack := ⟨value :: rest⟩,
               halted := decide (m.program.length ≤ m.pc + 1), steps := m.steps + 1 }), s) := by
  have hv' : { m with steps := m.steps + 1 }.stack.values = top :: second :: rest := hv
  rw [step_of_next?_some console s hi, exec, poppingTwo_of_cons hv']
  simp only [hop]
  rfl

theorem step_arithmetic_of_none (hi : m.next? = some (.arithmetic op))
    (hv : m.stack.values = top :: second :: rest) (hop : op.apply? second top = none) :
    step console m s = ((.error (.runtime (m.pc + 1) (.cause .divisionByZero)),
      { m with stack := ⟨rest⟩, halted := true, steps := m.steps + 1 }), s) := by
  have hv' : { m with steps := m.steps + 1 }.stack.values = top :: second :: rest := hv
  rw [step_of_next?_some console s hi, exec, poppingTwo_of_cons hv']
  simp only [hop]
  rfl

/-- **Machine arithmetic is that of integers, modulo `2 ^ 64`.** On any two values an operation
replaces them by the only value that it can have, and leaves the values below alone; the quotient of
`-2 ^ 63` and `-1`, which is out of range, is `-2 ^ 63`. It fails only if it divides by zero. -/
theorem step_arithmetic {m : Machine} {op : Arithmetic} {top second : Int64} {rest : List Int64}
    (hi : m.next? = some (.arithmetic op)) (hv : m.stack.values = top :: second :: rest)
    {σ : Type} (console : Console σ) (s : σ) :
    (op = .div ∧ top = 0 → step console m s =
      ((.error (.runtime (m.pc + 1) (.cause .divisionByZero)),
        { m with stack := ⟨rest⟩, halted := true, steps := m.steps + 1 }), s)) ∧
    (¬ (op = .div ∧ top = 0) → ∃ value, (∀ v, op.Computes second top v ↔ v = value) ∧
      step console m s = ((.ok (!decide (m.program.length ≤ m.pc + 1)),
        { m with pc := m.pc + 1, stack := ⟨value :: rest⟩,
                 halted := decide (m.program.length ≤ m.pc + 1), steps := m.steps + 1 }), s)) := by
  constructor
  · intro hzero
    exact step_arithmetic_of_none console s hi hv (Arithmetic.apply_eq_none_iff.2 hzero)
  · intro hzero
    have hsome : op.apply? second top ≠ none := mt Arithmetic.apply_eq_none_iff.1 hzero
    obtain ⟨value, hop⟩ := Option.ne_none_iff_exists'.1 hsome
    refine ⟨value, fun v => ?_, step_arithmetic_of_some console s hi hv hop⟩
    rw [← Arithmetic.apply_eq_some_iff, hop, Option.some_inj]
    exact eq_comm

/-- The one quotient that is out of range, above a value that stays. -/
theorem step_arithmetic_least_by_minus_one :
    let l : Listing := ⟨[⟨.begin, ""⟩, ⟨.push, "7"⟩, ⟨.push, "-9223372036854775808"⟩,
      ⟨.push, "-1"⟩, ⟨.arithmetic .div, ""⟩, ⟨.finish, ""⟩]⟩
    let p : Program := ⟨#[.begin, .push 7, .push Int64.minValue, .push (-1), .arithmetic .div,
      .finish], l, ⟨[], [], some 0, some 5⟩, 0⟩
    let m := (after silent 4 (start p) ()).1
    Program.ofListing l = .ok p ∧ m.next? = some (.arithmetic .div) ∧
      m.stack.values = [-1, Int64.minValue, 7] ∧
      (step silent m ()).1.1 = .ok true ∧
      (step silent m ()).1.2.stack.values = [Int64.minValue, 7] := by
  intro l p m
  have h : Program.ofListing l = .ok p := by decide +kernel
  have hi : m.next? = some (.arithmetic .div) := by decide +kernel
  have hv : m.stack.values = [-1, Int64.minValue, 7] := by decide +kernel
  obtain ⟨value, hvalue, hstep⟩ := (step_arithmetic hi hv silent ()).2 (by decide)
  have hmin : Int64.minValue = value :=
    (hvalue _).1 (Arithmetic.computes_div_iff.2 ⟨by decide, rfl⟩)
  rw [hstep, ← hmin]
  exact ⟨h, hi, hv, by decide +kernel, rfl⟩

end Machine

end StackMachine
