/-!
# Decimal integers

The machine works on signed 64-bit integers, written in decimal.

* `Decimal.read?`: an optional sign followed by one or more digits, within the range of `Int64`.
* `Decimal.write`: a minus sign for negative values, then the digits without leading zeros.
* `Decimal.read?_write`: **what is written reads back**.
-/

namespace StackMachine.Decimal

/-! ## Reading -/

/-- The value of a non-empty run of digits. -/
def natural? (digits : List Char) : Option Nat :=
  if !digits.isEmpty && digits.all Char.isDigit then some (Nat.ofDigitChars 10 digits 0) else none

/-- The value of a run of digits behind an optional sign. -/
def integer? : List Char → Option Int
  | '+' :: digits => (natural? digits).map Int.ofNat
  | '-' :: digits => (natural? digits).map fun n => -(n : Int)
  | digits => (natural? digits).map Int.ofNat

/-- The values of machine integers. -/
def InRange (i : Int) : Prop :=
  Int64.minValue.toInt ≤ i ∧ i ≤ Int64.maxValue.toInt

instance (i : Int) : Decidable (InRange i) :=
  inferInstanceAs (Decidable (_ ∧ _))

/-- The machine integer that a text denotes. -/
def read? (text : String) : Option Int64 :=
  (integer? text.toList).bind fun i => if InRange i then some (Int64.ofInt i) else none

/-! ## Writing -/

/-- The decimal text of a machine integer. -/
def write (value : Int64) : String :=
  toString value.toInt

/-! ## Reading what was written -/

theorem natural?_toDigits (n : Nat) : natural? (Nat.toDigits 10 n) = some n := by
  have hne : (Nat.toDigits 10 n).isEmpty = false := by simp [Nat.toDigits_ne_nil]
  have hall : (Nat.toDigits 10 n).all Char.isDigit = true :=
    List.all_eq_true.2 fun c hc => Nat.isDigit_of_mem_toDigits (by decide) (by decide) hc
  simp [natural?, hne, hall, Nat.ofDigitChars_ten_toDigits]

theorem integer?_toDigits (n : Nat) : integer? (Nat.toDigits 10 n) = some (n : Int) := by
  have hd : ∀ c ∈ Nat.toDigits 10 n, c.isDigit = true := fun c hc =>
    Nat.isDigit_of_mem_toDigits (by decide) (by decide) hc
  have h := natural?_toDigits n
  unfold integer?
  split
  · next heq => rw [heq] at hd; exact absurd (hd '+' (by simp)) (by decide)
  · next heq => rw [heq] at hd; exact absurd (hd '-' (by simp)) (by decide)
  · simp [h]

theorem integer?_toString (i : Int) : integer? (toString i).toList = some i := by
  cases i with
  | ofNat n =>
    change integer? n.repr.toList = _
    rw [Nat.toList_repr]
    exact integer?_toDigits n
  | negSucc n =>
    change integer? ("-" ++ n.succ.repr).toList = _
    rw [String.toList_append, Nat.toList_repr]
    have h : "-".toList = ['-'] := by simp
    rw [h, List.singleton_append, integer?, natural?_toDigits]
    rfl

theorem inRange_toInt (value : Int64) : InRange value.toInt :=
  ⟨Int64.minValue_le_toInt value, Int64.toInt_le value⟩

/-- **What is written reads back.** -/
theorem read?_write (value : Int64) : read? (write value) = some value := by
  rw [read?, write, integer?_toString, Option.bind_some, if_pos (inRange_toInt value),
    Int64.ofInt_toInt]

end StackMachine.Decimal
