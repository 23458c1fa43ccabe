import StackMachine.Proofs.Faults
import StackMachine.Proofs.Finishes

/-!
# Input that is not read

A console on byte streams takes whole lines, and no more of them than it needs for the next word.
Lines that a run has not taken have no influence on it: whatever else the input holds behind them,
the run is the same.

* `Stream.withMore`: the stream with more input behind what is not taken yet.
* `Stream.console_read_withMore`: **it is read alike**, unless the input runs out.
* `Stream.perform_input`: input is taken from the front.
* `Machine.step_withMore`, `Machine.run_withMore`: steps and runs on it.
* **`run_ignores_unread_input`**: what stands behind the input makes no difference.
-/

namespace StackMachine

/-! ## Streams -/

namespace Stream

variable {s : Stream} {lines : List Bytes} {μ : Type}

/-- The stream with more input behind what is not taken yet. -/
def withMore (s : Stream) (more : Bytes) : Stream :=
  { s with input := s.input ++ cutLines more }

/-- Lines behind the one that holds the first word are not looked at. -/
theorem firstWord_append (h : (firstWord lines).1 ≠ .error .inputExhausted) (more : List Bytes) :
    firstWord (lines ++ more) =
      ((firstWord lines).1, (firstWord lines).2.1, (firstWord lines).2.2 ++ more) := by
  fun_induction firstWord lines with
  | case1 => exact absurd rfl h
  | case2 line rest c hc => rw [List.cons_append, firstWord, hc]
  | case3 line rest hw ih => rw [List.cons_append, firstWord, hw, ih h]
  | case4 line rest word pending hw => rw [List.cons_append, firstWord, hw]

theorem nextWord_withMore (h : s.nextWord.1 ≠ .error .inputExhausted) (more : Bytes) :
    (s.withMore more).nextWord = (s.nextWord.1, s.nextWord.2.withMore more) := by
  obtain ⟨input, pending, prompt, output, room⟩ := s
  cases pending with
  | cons word pending => rfl
  | nil =>
    simp only [nextWord, withMore] at h ⊢
    rw [firstWord_append h]

theorem put_withMore (bytes more : Bytes) :
    (s.withMore more).put bytes = ((s.put bytes).1, (s.put bytes).2.withMore more) := by
  obtain ⟨input, pending, prompt, output, _ | room⟩ := s
  · rfl
  · simp only [put, withMore]
    split_ifs <;> rfl

theorem putPrompt_withMore (more : Bytes) :
    (s.withMore more).putPrompt = (s.putPrompt.1, s.putPrompt.2.withMore more) := by
  obtain ⟨input, pending, _ | prompt, output, room⟩ := s
  · rfl
  · exact put_withMore (utf8 prompt) more

theorem readInteger_withMore (h : s.readInteger.1 ≠ .error .inputExhausted) (more : Bytes) :
    (s.withMore more).readInteger = (s.readInteger.1, s.readInteger.2.withMore more) := by
  unfold readInteger at h ⊢
  rw [putPrompt_withMore]
  rcases hp : s.putPrompt with ⟨c | _, s'⟩
  · rfl
  · simp only [hp] at h ⊢
    have hword : s'.nextWord.1 ≠ .error .inputExhausted := by
      intro he
      rcases hw : s'.nextWord with ⟨c | word, s''⟩
      · rw [hw] at he h
        cases he
        exact h rfl
      · rw [hw] at he
        cases he
    rw [nextWord_withMore hword]
    rcases s'.nextWord with ⟨c | word, s''⟩ <;> rfl

/-- **A console reads the same word**, unless the input runs out. -/
theorem console_read_withMore (h : (console.read s).1 ≠ .error (.cause .inputExhausted))
    (more : Bytes) :
    console.read (s.withMore more) = ((console.read s).1, (console.read s).2.withMore more) := by
  have hword : s.readInteger.1 ≠ .error .inputExhausted := by
    intro he
    refine h ?_
    simp only [console, he]
    rfl
  simp only [console, readInteger_withMore hword]

theorem console_write_withMore (value : Int64) (more : Bytes) :
    console.write value (s.withMore more) =
      ((console.write value s).1, (console.write value s).2.withMore more) := by
  simp only [console, writeInteger, put_withMore]

theorem perform_withMore {a : Action μ} (ha : a.HandsOn)
    (h : ∀ f, (a.perform console s).1.1 = .error f → f.root ≠ .inputExhausted) (more : Bytes) :
    a.perform console (s.withMore more) =
      ((a.perform console s).1, (a.perform console s).2.withMore more) := by
  cases a with
  | settle o => rfl
  | read resume =>
    have hread : (console.read s).1 ≠ .error (.cause .inputExhausted) := by
      intro he
      have hfault := (congrArg (fun answer => (resume answer).1) he).trans (ha _)
      exact h _ hfault rfl
    simp only [Action.perform, console_read_withMore hread]
  | write value resume => simp only [Action.perform, console_write_withMore]

/-! ## Taking input -/

theorem firstWord_suffix (lines : List Bytes) : (firstWord lines).2.2 <:+ lines := by
  fun_induction firstWord lines with
  | case1 => exact List.suffix_rfl
  | case2 line rest => exact List.suffix_cons line rest
  | case3 line rest hw ih => exact ih.trans (List.suffix_cons line rest)
  | case4 line rest => exact List.suffix_cons line rest

theorem nextWord_input (s : Stream) : s.nextWord.2.input <:+ s.input := by
  unfold nextWord
  split
  · exact List.suffix_rfl
  · exact firstWord_suffix s.input

theorem put_input (s : Stream) (bytes : Bytes) : (s.put bytes).2.input = s.input := by
  unfold put
  split
  · rfl
  · split_ifs <;> rfl

theorem readInteger_input (s : Stream) : s.readInteger.2.input <:+ s.input := by
  have hp : s.putPrompt.2.input = s.input := by
    unfold putPrompt
    split
    · rfl
    · exact put_input s _
  unfold readInteger
  rcases hq : s.putPrompt with ⟨c | _, s'⟩
  · rw [hq] at hp
    exact hp ▸ List.suffix_rfl
  · rw [hq] at hp
    have hw : s'.nextWord.2.input <:+ s.input := hp ▸ nextWord_input s'
    dsimp only
    revert hw
    rcases s'.nextWord with ⟨c | word, s''⟩ <;> exact id

/-- **Input is taken from the front.** -/
theorem perform_input (a : Action μ) (s : Stream) : (a.perform console s).2.input <:+ s.input := by
  cases a with
  | settle o => exact List.suffix_rfl
  | read resume => exact readInteger_input s
  | write value resume => exact (put_input s _).symm ▸ List.suffix_rfl

end Stream

/-! ## Steps and runs -/

namespace Machine

variable {m m' : Machine} {s t : Stream} {r : Except Fault Unit} {fuel : Nat}

theorem step_input (m : Machine) (s : Stream) :
    (step Stream.console m s).2.input <:+ s.input := by
  unfold step
  cases m.action? with
  | none => exact List.suffix_rfl
  | some action => exact Stream.perform_input action s

theorem after_input (n : Nat) (m : Machine) (s : Stream) :
    (after Stream.console n m s).2.input <:+ s.input := by
  induction n generalizing m s with
  | zero => exact List.suffix_rfl
  | succ n ih => exact (ih _ _).trans (step_input m s)

/-- **A step is the same** with more input behind, unless the input runs out. -/
theorem step_withMore
    (h : ∀ f, (step Stream.console m s).1.1 = .error f → f.root ≠ .inputExhausted) (more : Bytes) :
    step Stream.console m (s.withMore more) =
      ((step Stream.console m s).1, (step Stream.console m s).2.withMore more) := by
  cases hi : m.next? with
  | none => rw [step_of_next?_none _ _ hi, step_of_next?_none _ _ hi]
  | some i =>
    rw [step_of_next?_some _ _ hi] at h ⊢
    rw [step_of_next?_some _ _ hi, Stream.perform_withMore (exec_handsOn _ _)]
    intro f hf
    rw [← Fault.root_atRuntimeLine]
    exact h _ (settle_of_error hf)

/-- **A run is the same** with more input behind, unless the input runs out. -/
theorem run_withMore (h : run Stream.console fuel m s = .finished r m' t)
    (hr : ∀ f, r = .error f → f.root ≠ .inputExhausted) (more : Bytes) :
    run Stream.console fuel m (s.withMore more) = .finished r m' (t.withMore more) ∧
      requests Stream.console fuel m (s.withMore more) = requests Stream.console fuel m s := by
  induction fuel generalizing m s with
  | zero => cases h
  | succ fuel ih =>
    have hstep : ∀ f, (step Stream.console m s).1.1 = .error f → f.root ≠ .inputExhausted := by
      intro f hf
      rw [run_of_ne _ (by rw [hf]; simp), hf] at h
      cases h
      exact hr f rfl
    have hmore := step_withMore hstep more
    have hsame := congrArg (·.1.1) hmore
    rw [requests, requests, hmore]
    by_cases hb : (step Stream.console m s).1.1 = .ok true
    · rw [run_of_ok _ hb] at h
      rw [run_of_ok _ (hsame.trans hb), hmore]
      obtain ⟨hrun, hask⟩ := ih h
      exact ⟨hrun, by rw [hask]⟩
    · have hh := halted_of_step Stream.console hb
      rw [run_of_ne _ hb] at h
      rw [run_of_ne _ (hsame ▸ hb), hmore, requests_of_halted _ hh, requests_of_halted _ hh]
      cases h
      exact ⟨rfl, rfl⟩

end Machine

/-! ## The input behind -/

/-- Lines that end are cut alike, whatever follows. -/
theorem cutLines_append {input : Bytes} (h : input = [] ∨ input.getLast? = some newline)
    (more : Bytes) : cutLines (input ++ more) = cutLines input ++ cutLines more := by
  rcases h with rfl | h
  · rfl
  · obtain ⟨before, rfl⟩ := List.getLast?_eq_some_iff.1 h
    rw [List.append_assoc]
    exact cutLines_append_newline before more

open Machine in
/-- **Input that is not read makes no difference.** If a machine ends on an input of whole lines,
and not for want of input, then it ends in the same way and in the same state whatever follows the
input: it makes the same requests and writes the same output, and it has taken the same bytes. -/
theorem run_ignores_unread_input {m : Machine} {input : Bytes}
    (hlines : input = [] ∨ input.getLast? = some newline) {prompt : Option String}
    {room : Option Nat} {r : Except Fault Unit} {asked : List Request} {m' : Machine} {t : Stream}
    (h : Finishes Stream.console m { input := cutLines input, prompt, room } r asked m' t)
    (hr : ∀ f, r = .error f → f.root ≠ .inputExhausted) (more : Bytes) :
    ∃ t', Finishes Stream.console m { input := cutLines (input ++ more), prompt, room } r asked m'
        t' ∧
      t'.output = t.output ∧
      ∃ taken, input = taken ++ t.input.flatten ∧ input ++ more = taken ++ t'.input.flatten := by
  obtain ⟨fuel, hrun, rfl⟩ := h
  obtain ⟨hmore, hasked⟩ := run_withMore hrun hr more
  have hwith : Stream.withMore { input := cutLines input, prompt, room } more =
      { input := cutLines (input ++ more), prompt, room } := by
    rw [cutLines_append hlines]
    rfl
  rw [hwith] at hmore hasked
  -- what was taken are the lines in front of those that are left
  obtain ⟨taken, htaken⟩ : t.input <:+ cutLines input := by
    have hsuffix := after_input fuel m { input := cutLines input, prompt, room }
    rwa [after_of_run _ hrun] at hsuffix
  have hbytes : input = taken.flatten ++ t.input.flatten := by
    rw [← List.flatten_append, htaken, flatten_cutLines]
  refine ⟨t.withMore more, ⟨fuel, hmore, hasked⟩, rfl, taken.flatten, hbytes, ?_⟩
  rw [Stream.withMore, List.flatten_append, flatten_cutLines, ← List.append_assoc, ← hbytes]

open Machine in
/-- A program that reads one of two numbers. The line behind them is no text, and is left alone. -/
theorem run_ignores_unread_input_not_text :
    let l : Listing := ⟨[⟨.begin, ""⟩, ⟨.read, ""⟩, ⟨.write, ""⟩, ⟨.finish, ""⟩]⟩
    let p : Program := ⟨#[.begin, .read, .write, .finish], l, ⟨[], [], some 0, some 3⟩, 0⟩
    let input := utf8 "7 8\n"
    let s : Stream := { input := cutLines input, prompt := some "? " }
    let s' : Stream := { input := cutLines (input ++ [0xff]), prompt := some "? " }
    let m := (after Stream.console 4 (start p) s).1
    Program.ofListing l = .ok p ∧ input.getLast? = some newline ∧ m.pc = 3 ∧
      (∃ t, Finishes Stream.console (start p) s (.ok ()) [.read, .write 7] m t ∧
        t.output = utf8 "? 7\n" ∧ t.input = []) ∧
      ∃ t', Finishes Stream.console (start p) s' (.ok ()) [.read, .write 7] m t' ∧
        t'.output = utf8 "? 7\n" ∧ t'.input.flatten = [0xff] := by
  intro l p input s s' m
  have hlast : input.getLast? = some newline := by decide +kernel
  have hasked : requests Stream.console 4 (start p) s = [.read, .write 7] := by decide +kernel
  have hf : Finishes Stream.console (start p) s (.ok ()) [.read, .write 7] m
      (after Stream.console 4 (start p) s).2 := ⟨4, rfl, hasked⟩
  have houtput : (after Stream.console 4 (start p) s).2.output = utf8 "? 7\n" := by decide +kernel
  have hinput : (after Stream.console 4 (start p) s).2.input = [] := by decide +kernel
  obtain ⟨t', hf', hout, taken, htaken, htaken'⟩ :=
    run_ignores_unread_input (.inr hlast) hf nofun [0xff]
  rw [hinput, List.flatten_nil, List.append_nil] at htaken
  rw [← htaken] at htaken'
  exact ⟨rfl, hlast, rfl, ⟨_, hf, houtput, hinput⟩, t', hf', hout.trans houtput,
    (List.append_cancel_left htaken').symm⟩

end StackMachine
