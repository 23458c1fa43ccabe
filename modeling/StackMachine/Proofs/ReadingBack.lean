import StackMachine.Proofs.Reading
import StackMachine.Proofs.Rendering

/-!
# Reading back what was written

A console on byte streams writes every integer on a line of its own, and the decimal text of an
integer is one word, so that the output of one console can be the input of another.

* `Console.writeAll`, `Console.readAll`: integers that are written and read in turn.
* `isWord_write`: an integer is written as one word; **`inputEvents_shown`**: the events of an
  output are the integers written to it.
* `Stream.Unhindered`: a stream whose reads cannot fail to prompt; `getElem?_readAll`: they answer
  the events of its input, one each.
* **`reads_back_writes`**: what was written is read, and then the input is exhausted.
-/

namespace StackMachine

/-! ## Several integers in turn -/

namespace Console

variable {σ : Type} (console : Console σ)

/-- Writes values in order, up to the first that fails. -/
def writeAll (values : List Int64) (s : σ) : Except Fault Unit × σ :=
  match values with
  | [] => (.ok (), s)
  | value :: values =>
    match console.write value s with
    | (.error f, s) => (.error f, s)
    | (.ok (), s) => writeAll values s

/-- The answers of `n` reads, each behind the one before, whether that failed or not. -/
def readAll (n : Nat) (s : σ) : List (Except Fault Int64) :=
  match n with
  | 0 => []
  | n + 1 => (console.read s).1 :: readAll n (console.read s).2

@[simp] theorem length_readAll (n : Nat) (s : σ) : (console.readAll n s).length = n := by
  induction n generalizing s with
  | zero => rfl
  | succ n ih => exact congrArg (· + 1) (ih _)

end Console

/-! ## An integer as a word -/

theorem integer_write (value : Int64) : integer (Decimal.write value) = .ok value := by
  rw [integer, Decimal.read?_write]

theorem isInteger_write (value : Int64) : Decimal.IsInteger (Decimal.write value) := by
  by_contra h
  have hok := integer_write value
  rw [integer_of_not_isInteger h] at hok
  cases hok

theorem isWord_write (value : Int64) : IsWord (Decimal.write value).toList := by
  have hfits : Record.Fits ⟨.push, Decimal.write value⟩ := isInteger_write value
  have hne : Decimal.write value ≠ "" := fun he => by
    have h := (isInteger_write value).ne_nil
    rw [he] at h
    exact h rfl
  exact hfits.operand_isWord hne

theorem lineEvents_shown (value : Int64) :
    lineEvents ((Request.write value).shown none) = [.word (Decimal.write value)] := by
  have hbytes : (Request.write value).shown none =
      utf8 (String.ofList ((Decimal.write value).toList ++ ['\n'])) := by
    rw [utf8_append_newline, String.ofList_toList]
    rfl
  rw [hbytes, lineEvents_utf8, String.toList_ofList, InputEvent.ofText,
    words_append_cons isBlank_newline, words_nil, List.append_nil, (isWord_write value).words_eq,
    List.map_singleton, String.ofList_toList]

/-- **The events of an output are the integers that were written.** -/
theorem inputEvents_shown (values : List Int64) :
    inputEvents (values.flatMap fun value => (Request.write value).shown none) =
      values.map fun value => .word (Decimal.write value) := by
  induction values with
  | nil => rfl
  | cons value values ih =>
    have hline : newline ∉ utf8 (Decimal.write value) := by
      rw [← String.ofList_toList (s := Decimal.write value)]
      exact newline_notMem_utf8 (isWord_write value).newline_notMem
    have hcut := cutLines_newline hline
      (values.flatMap fun value => (Request.write value).shown none)
    rw [List.flatMap_cons, Request.shown, List.append_assoc, List.singleton_append, inputEvents,
      hcut, List.flatMap_cons, List.map_cons, ← ih]
    exact congrArg (· ++ _) (lineEvents_shown value)

namespace Stream

variable {s s' : Stream} {values : List Int64}

/-! ## Writing in turn -/

theorem writeAll_of_room (h : s.room = none) (values : List Int64) :
    (console.writeAll values s).1 = .ok () := by
  induction values generalizing s with
  | nil => rfl
  | cons value values ih =>
    rw [Console.writeAll, console_write_of_room h]
    exact ih h

theorem output_of_write {value : Int64} (h : console.write value s = (.ok (), s')) :
    s'.output = s.output ++ (Request.write value).shown none := by
  simp only [console, writeInteger, put] at h
  split at h
  · cases h
    rfl
  · split at h
    · cases h
      rfl
    · cases h

theorem output_of_writeAll (h : console.writeAll values s = (.ok (), s')) :
    s'.output = s.output ++ values.flatMap fun value => (Request.write value).shown none := by
  induction values generalizing s with
  | nil =>
    cases h
    exact (List.append_nil _).symm
  | cons value values ih =>
    rw [Console.writeAll] at h
    split at h
    · cases h
    · next hwrite =>
      rw [ih h, output_of_write hwrite, List.flatMap_cons, List.append_assoc]

/-! ## Reading in turn -/

/-- No read fails to prompt: there is no prompt, or the output takes all of them. -/
def Unhindered (s : Stream) : Prop :=
  s.prompt = none ∨ s.room = none

theorem exists_console_read (h : s.Unhindered) : ∃ output, console.read s =
    (InputEvent.answer s.events.head?, { s.nextWord.2 with output }) := by
  obtain h | h := h
  · refine ⟨s.nextWord.2.output, ?_⟩
    have hprompt : s.putPrompt = (.ok (), s) := by rw [putPrompt, h]
    simp only [console, readInteger, hprompt, InputEvent.answer, ← (nextWord_events s).1]
    rcases s.nextWord with ⟨c | word, s'⟩ <;> rfl
  · exact ⟨_, console_read_of_room h⟩

theorem Unhindered.read (h : s.Unhindered) : (console.read s).2.Unhindered := by
  obtain ⟨output, hread⟩ := exists_console_read h
  obtain ⟨hprompt, hroom⟩ := nextWord_keeps s
  rw [hread]
  exact h.imp hprompt.trans hroom.trans

/-- **Reads answer the events in order**, one each. -/
theorem getElem?_readAll (h : s.Unhindered) {i n : Nat} (hi : i < n) :
    (console.readAll n s)[i]? = some (InputEvent.answer s.events[i]?) := by
  induction n generalizing s i with
  | zero => exact absurd hi (Nat.not_lt_zero i)
  | succ n ih =>
    obtain ⟨output, hread⟩ := exists_console_read h
    cases i with
    | zero => rw [Console.readAll, List.getElem?_cons_zero, hread, List.head?_eq_getElem?]
    | succ i =>
      have hevents : (console.read s).2.events = s.events.tail := by
        rw [hread]
        exact (nextWord_events s).2
      rw [Console.readAll, List.getElem?_cons_succ, ih h.read (Nat.lt_of_succ_lt_succ hi), hevents,
        List.getElem?_tail]

/-- **What was written is read back.** Values that were all written in order, as they are if the
output has no bound, are the answers of the first reads on the bytes they gave, in the same order.
Every further read finds the input exhausted. -/
theorem reads_back_writes (values : List Int64) (w : Stream) :
    (w.room = none → (console.writeAll values w).1 = .ok ()) ∧
    ∀ w' bytes, console.writeAll values w = (.ok (), w') → w'.output = w.output ++ bytes →
      ∀ r : Stream, r.input = cutLines bytes → r.pending = [] → r.Unhindered → ∀ k,
        console.readAll (values.length + k) r =
          values.map .ok ++ List.replicate k (.error (.cause .inputExhausted)) := by
  refine ⟨fun hw => writeAll_of_room hw values, ?_⟩
  intro w' bytes hwrite hout r hinput hpending hr k
  obtain rfl : bytes = values.flatMap fun value => (Request.write value).shown none :=
    List.append_cancel_left (hout.symm.trans (output_of_writeAll hwrite))
  have hevents : r.events = values.map fun value => .word (Decimal.write value) := by
    rw [events, hpending, hinput]
    exact inputEvents_shown values
  apply List.ext_getElem?
  intro i
  obtain hi | hi := Nat.lt_or_ge i (values.length + k)
  · rw [getElem?_readAll hr hi, hevents, List.getElem?_map, List.getElem?_append, List.length_map]
    split_ifs with hvalue
    · -- a word that was written denotes its value
      rw [List.getElem?_map, List.getElem?_eq_getElem hvalue, Option.map_some, Option.map_some,
        InputEvent.answer, InputEvent.found]
      simp only [Except.bind, integer_write]
      rfl
    · have hnone : values[i]? = none := List.getElem?_eq_none (Nat.le_of_not_lt hvalue)
      have hk : i - values.length < k := by omega
      rw [hnone, List.getElem?_replicate_of_lt hk]
      rfl
  · rw [List.getElem?_eq_none (by simpa using hi), List.getElem?_eq_none (by simpa using hi)]

/-- The least integer and the greatest, of which the first has no opposite. -/
theorem reads_back_writes_extremes :
    let values := [Int64.minValue, 0, Int64.maxValue]
    let bytes := utf8 "-9223372036854775808\n0\n9223372036854775807\n"
    let w : Stream := { input := [] }
    let r : Stream := { input := cutLines bytes, prompt := some "> " }
    (console.writeAll values w).1 = .ok () ∧
      console.writeAll values w = (.ok (), { w with output := bytes }) ∧ r.Unhindered ∧
      console.readAll 5 r = [.ok Int64.minValue, .ok 0, .ok Int64.maxValue,
        .error (.cause .inputExhausted), .error (.cause .inputExhausted)] := by
  intro values bytes w r
  have hwrite : console.writeAll values w = (.ok (), { w with output := bytes }) := by
    decide +kernel
  have hr : r.Unhindered := .inr rfl
  obtain ⟨hok, hread⟩ := reads_back_writes values w
  exact ⟨hok rfl, hwrite, hr, hread _ _ hwrite rfl r rfl rfl hr 2⟩

end Stream

end StackMachine
