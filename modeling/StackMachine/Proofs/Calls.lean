import StackMachine.Proofs.Brackets
import StackMachine.Proofs.Safety

/-!
# Calls and returns of a run

The stack of pending calls is all that a machine knows of the calls and returns it has executed.
It is exactly the calls that are still open, so that a return goes back to its call whatever was
executed in between.

* `mark`, `marks`: what the steps of a run mean for the pending calls; `step_calls`: **one step**.
* **`exists_pending`**: the stack holds the lines of the open calls.
* **`returns_of_matched`**: a return goes on behind its call and restores the stack.
* `step_ret_eq_error_iff`, `step_ret_of_unmatched`: when a return fails, and which call it matches
  otherwise.
* **`calls_match_returns`**: all of it, for every run of a bound program.
-/

namespace StackMachine.Machine

variable {l : Listing} {p : Program} {m : Machine} {σ : Type} (console : Console σ) {s : σ}

/-! ## The marks of a run -/

/-- What the next step does to the pending calls. A call or return that fails does nothing. -/
def mark (m : Machine) (s : σ) : Mark :=
  match m.next?, (step console m s).1.1 with
  | some (.call _), .ok _ => .call
  | some .ret, .ok _ => .ret
  | _, _ => .other

/-- The marks of `n` steps. -/
def marks (n : Nat) (m : Machine) (s : σ) : List Mark :=
  (List.range n).map fun k => mark console (after console k m s).1 (after console k m s).2

@[simp] theorem length_marks (n : Nat) (m : Machine) (s : σ) :
    (marks console n m s).length = n := by
  rw [marks, List.length_map, List.length_range]

theorem marks_succ (n : Nat) (m : Machine) (s : σ) : marks console (n + 1) m s =
    marks console n m s ++ [mark console (after console n m s).1 (after console n m s).2] := by
  rw [marks, List.range_succ, List.map_append]
  rfl

theorem take_marks {n k : Nat} (h : k ≤ n) (m : Machine) (s : σ) :
    (marks console n m s).take k = marks console k m s := by
  rw [marks, marks, ← List.map_take, List.take_range, Nat.min_eq_left h]

/-! ## Steps -/

theorem step_calls (m : Machine) (s : σ) :
    (mark console m s = .other ∧ (step console m s).1.2.calls = m.calls) ∨
    (mark console m s = .call ∧ (step console m s).1.2.calls = m.pc :: m.calls) ∨
    (mark console m s = .ret ∧ ∃ line, m.calls = line :: (step console m s).1.2.calls ∧
      (step console m s).1.2.pc = line + 1) := by
  unfold mark
  obtain ⟨hi, hs⟩ | ⟨i, ⟨r, m'⟩, hi, ⟨hf, -, -⟩, hs⟩ := step_cases m console s
  · rw [hi, hs]
    exact Or.inl ⟨rfl, rfl⟩
  · dsimp only at hf
    rw [hi, hs]
    generalize hcalls : m'.calls = calls at hf
    cases hf with
    | next hn =>
      refine Or.inl ⟨?_, hcalls⟩
      cases i with
      | call | ret => exact absurd hn (by simp [Instruction.opcode])
      | _ => rfl
    | halt => exact Or.inl ⟨rfl, hcalls⟩
    | jump hj =>
      refine Or.inl ⟨?_, hcalls⟩
      rcases hj with rfl | ⟨test, rfl⟩ <;> rfl
    | call => exact Or.inr (Or.inl ⟨rfl, hcalls⟩)
    | ret hc => exact Or.inr (Or.inr ⟨rfl, _, hcalls ▸ hc, rfl⟩)
    | fail f =>
      refine Or.inl ⟨?_, hcalls⟩
      cases i <;> rfl

theorem step_ret_of_nil (hi : m.next? = some .ret) (hc : m.calls = []) : (step console m s).1.1 =
    .error (.runtime (m.pc + 1) (.cause .returnWithoutCall)) := by
  rw [step_of_next?_some console s hi, exec, hc]
  rfl

theorem step_ret_of_cons (hi : m.next? = some .ret) {line : Nat} {rest : List Nat}
    (hc : m.calls = line :: rest) :
    (∃ b, (step console m s).1.1 = .ok b) ∧ mark console m s = .ret := by
  have hr : ∃ b, (step console m s).1.1 = .ok b := by
    rw [step_of_next?_some console s hi, exec, hc]
    exact ⟨_, rfl⟩
  obtain ⟨b, hb⟩ := hr
  refine ⟨⟨b, hb⟩, ?_⟩
  rw [mark, hi, hb]

theorem step_call_of_unresolved {id : LabelId} (hi : m.next? = some (.call id)) {c : Cause}
    (hc : m.program.symbols.jumpTarget id = .error c) : (step console m s).1.1 =
      .error (.runtime (m.pc + 1) (.cause c)) ∧ (step console m s).1.2.calls = m.calls := by
  rw [step_of_next?_some console s hi, exec, hc]
  exact ⟨rfl, rfl⟩

theorem Inside.jumpTarget_of_undefined (hb : BoundTo l p) (h : Inside p m) {id : LabelId}
    {name : String} (hn : p.symbols.usedLabels[id.index]? = some name)
    (hd : (⟨.label, name⟩ : Record) ∉ l.records) :
    m.program.symbols.jumpTarget id = .error (.unresolvedLabel name) := by
  refine SymbolTable.jumpTarget_of_none (h.code.usedLabels ▸ hn) ?_
  rw [h.code.labelTarget?, hb.table.labelTarget? hn]
  exact labelLine?_eq_none_iff.2 hd

theorem step_call_of_undefined (hb : BoundTo l p) (h : Inside p m) (hm : m.halted = false)
    {name : String} (hr : l.records[m.pc]? = some ⟨.call, name⟩)
    (hd : (⟨.label, name⟩ : Record) ∉ l.records) : (step console m s).1.1 =
      .error (.runtime (m.pc + 1) (.cause (.unresolvedLabel name))) ∧
        (step console m s).1.2.calls = m.calls := by
  obtain ⟨i, _, hi, -⟩ := (h.safe hb).next hm
  obtain ⟨r, hr', hbi⟩ := h.binds hb hi
  obtain rfl : r = ⟨.call, name⟩ := Option.some.inj (hr'.symm.trans hr)
  cases hbi with
  | call hn => exact step_call_of_unresolved console hi (h.jumpTarget_of_undefined hb hn hd)

/-! ## Runs -/

/-- **The pending calls of a run are its open calls**, with the lines they were made on. -/
theorem exists_pending (hm : m.calls = []) (s : σ) (n : Nat) :
    ∃ is, Pending (marks console n m s) is ∧
      (after console n m s).1.calls = is.map fun i => (after console i m s).1.pc := by
  induction n with
  | zero => exact ⟨[], .balanced .nil, hm⟩
  | succ n ih =>
    obtain ⟨is, hp, hc⟩ := ih
    rw [marks_succ, after_succ]
    -- the machine pushes and pops as the word opens and closes
    obtain ⟨hk, hc'⟩ | ⟨hk, hc'⟩ | ⟨hk, line, hline, -⟩ :=
      step_calls console (after console n m s).1 (after console n m s).2
    · rw [hk]
      exact ⟨is, hp.append (.other .nil), hc'.trans hc⟩
    · rw [hk]
      refine ⟨n :: is, ?_, ?_⟩
      · simpa using hp.call .nil
      · rw [hc', hc, List.map_cons]
    · rw [hk]
      rw [hc] at hline
      cases is with
      | nil => cases hline
      | cons i is => exact ⟨is, hp.append_ret.1, (List.cons.inj hline).2.symm⟩

theorem calls_of_pending (hm : m.calls = []) {n : Nat} {is : List Nat}
    (hp : Pending (marks console n m s) is) :
    (after console n m s).1.calls = is.map fun i => (after console i m s).1.pc := by
  obtain ⟨is', hp', hc⟩ := exists_pending console hm s n
  rw [hc, hp.unique hp']

theorem marks_of_matched {n i j : Nat} (h : Matched (marks console n m s) i j) :
    ∃ body, Balanced body ∧ marks console j m s = marks console i m s ++ .call :: body ∧
      marks console (j + 1) m s = marks console j m s ++ [.ret] := by
  obtain ⟨before, body, behind, e, hb, rfl, rfl⟩ := h
  have hlen := congrArg List.length e
  simp only [length_marks, List.length_append, List.length_cons] at hlen
  have hi : marks console before.length m s = before := by
    rw [← take_marks console (by omega : before.length ≤ n), e, List.take_left]
  have hj : marks console (before.length + body.length + 1) m s = before ++ .call :: body := by
    rw [← take_marks console (by omega : before.length + body.length + 1 ≤ n), e,
      show before ++ .call :: (body ++ .ret :: behind) = (before ++ .call :: body) ++ .ret :: behind
        by simp, List.take_left' (by simp; omega)]
  have hj' : marks console (before.length + body.length + 1 + 1) m s =
      before ++ .call :: body ++ [.ret] := by
    rw [← take_marks console (by omega : before.length + body.length + 1 + 1 ≤ n), e,
      show before ++ .call :: (body ++ .ret :: behind) =
        (before ++ .call :: body ++ [.ret]) ++ behind by simp, List.take_left' (by simp; omega)]
  exact ⟨body, hb, by rw [hi, hj], by rw [hj, hj']⟩

/-- **A matched return goes on behind its call**, with the calls that were pending before it. -/
theorem returns_of_matched (hm : m.calls = []) {n i j : Nat}
    (h : Matched (marks console n m s) i j) :
    (after console (j + 1) m s).1.pc = (after console i m s).1.pc + 1 ∧
      (after console (j + 1) m s).1.calls = (after console i m s).1.calls := by
  obtain ⟨body, hb, hj, hj'⟩ := marks_of_matched console h
  obtain ⟨is, hp, hc⟩ := exists_pending console hm s i
  have hopen : Pending (marks console j m s) (i :: is) := by
    have := hp.call hb
    rwa [length_marks, ← hj] at this
  have hclosed : Pending (marks console (j + 1) m s) is := hj' ▸ hopen.append_ret.1
  have hcalls := calls_of_pending console hm hopen
  refine ⟨?_, (calls_of_pending console hm hclosed).trans hc.symm⟩
  have hmark : mark console (after console j m s).1 (after console j m s).2 = .ret := by
    rw [marks_succ] at hj'
    exact (List.cons.inj (List.append_cancel_left hj')).1
  obtain ⟨hk, _⟩ | ⟨hk, _⟩ | ⟨_, line, hline, hpc⟩ :=
    step_calls console (after console j m s).1 (after console j m s).2
  · exact absurd (hk.symm.trans hmark) (by decide)
  · exact absurd (hk.symm.trans hmark) (by decide)
  · rw [after_succ, hpc]
    rw [hcalls, List.map_cons] at hline
    rw [(List.cons.inj hline).1]

theorem step_ret_eq_error_iff (hm : m.calls = []) {n : Nat}
    (hi : (after console n m s).1.next? = some .ret) :
    (step console (after console n m s).1 (after console n m s).2).1.1 =
        .error (.runtime ((after console n m s).1.pc + 1) (.cause .returnWithoutCall)) ↔
      ∀ i, ¬ Unmatched (marks console n m s) i := by
  obtain ⟨is, hp, hc⟩ := exists_pending console hm s n
  have hnone : (∀ i, ¬ Unmatched (marks console n m s) i) ↔ is = [] := by
    rw [List.eq_nil_iff_forall_not_mem]
    exact forall_congr' fun i => not_congr hp.mem_iff.symm
  rw [hnone]
  constructor
  · intro he
    cases is with
    | nil => rfl
    | cons i is =>
      obtain ⟨⟨b, hb⟩, _⟩ := step_ret_of_cons console hi hc
      rw [hb] at he
      cases he
  · rintro rfl
    exact step_ret_of_nil console hi hc

theorem step_ret_of_unmatched (hm : m.calls = []) {n i : Nat}
    (hi : (after console n m s).1.next? = some .ret) (hu : Unmatched (marks console n m s) i)
    (hlast : ∀ k > i, ¬ Unmatched (marks console n m s) k) :
    (∃ b, (step console (after console n m s).1 (after console n m s).2).1.1 = .ok b) ∧
      Matched (marks console (n + 1) m s) i n := by
  obtain ⟨is, hp, hc⟩ := exists_pending console hm s n
  obtain ⟨is, rfl⟩ : ∃ is', is = i :: is' := by
    cases is with
    | nil => cases hp.mem_iff.2 hu
    | cons k is =>
      -- the calls are listed from the latest on
      have hk : ¬ k > i := fun h => hlast k h (hp.mem_iff.1 List.mem_cons_self)
      rcases List.mem_cons.1 (hp.mem_iff.2 hu) with rfl | hm
      · exact ⟨is, rfl⟩
      · exact absurd ((List.pairwise_cons.1 hp.pairwise).1 i hm) hk
  obtain ⟨hok, hmark⟩ := step_ret_of_cons console hi hc
  refine ⟨hok, ?_⟩
  rw [marks_succ, hmark]
  simpa using hp.append_ret.2

/-- **Calls and returns match like brackets**, in every run of a bound program. The pending calls
are those without a return, in the order in which they were made. A return goes on behind the
latest of them and restores the calls that were pending before it; it fails if there is none. A
call of a label that no line defines changes nothing. -/
theorem calls_match_returns {l : Listing} {p : Program} (h : Program.ofListing l = .ok p)
    {σ : Type} (console : Console σ) (s : σ) (n : Nat) :
    let m k := (after console k (start p) s).1
    let word k := marks console k (start p) s
    let result := (step console (m n) (after console n (start p) s).2).1.1
    (∃ is : List Nat, is.Pairwise (· < ·) ∧ (∀ i, i ∈ is ↔ Unmatched (word n) i) ∧
      (m n).calls.reverse = is.map fun i => (m i).pc) ∧
    (∀ i j, Matched (word n) i j →
      (m (j + 1)).pc = (m i).pc + 1 ∧ (m (j + 1)).calls = (m i).calls) ∧
    ((m n).next? = some .ret →
      (result = .error (.runtime ((m n).pc + 1) (.cause .returnWithoutCall)) ↔
        ∀ i, ¬ Unmatched (word n) i) ∧
      ∀ i, Unmatched (word n) i → (∀ k > i, ¬ Unmatched (word n) k) →
        (∃ b, result = .ok b) ∧ Matched (word (n + 1)) i n ∧
          (m (n + 1)).pc = (m i).pc + 1 ∧ (m (n + 1)).calls = (m i).calls) ∧
    ∀ name, (m n).halted = false → l.records[(m n).pc]? = some ⟨.call, name⟩ →
      (⟨.label, name⟩ : Record) ∉ l.records →
      result = .error (.runtime ((m n).pc + 1) (.cause (.unresolvedLabel name))) ∧
        (m (n + 1)).calls = (m n).calls := by
  intro m word result
  have hm : (start p).calls = [] := rfl
  refine ⟨?_, fun i j => returns_of_matched console hm, fun hi => ⟨?_, fun i hu hlast => ?_⟩, ?_⟩
  · obtain ⟨is, hp, hc⟩ := exists_pending console hm s n
    refine ⟨is.reverse, List.pairwise_reverse.2 hp.pairwise, fun i => ?_, ?_⟩
    · rw [List.mem_reverse, hp.mem_iff]
    · rw [List.map_reverse, ← hc]
  · exact step_ret_eq_error_iff console hm hi
  · obtain ⟨hok, hmatched⟩ := step_ret_of_unmatched console hm hi hu hlast
    exact ⟨hok, hmatched, returns_of_matched console hm hmatched⟩
  · intro name hhalt hr hname
    have hb := boundTo_of_ofListing h
    obtain ⟨hfault, hcalls⟩ :=
      step_call_of_undefined console hb (inside_after console hb n) hhalt hr hname
    have hs := congrArg (·.1.calls) (after_succ console (start p) s n)
    exact ⟨hfault, hs.trans hcalls⟩

/-- A call within a call: the return behind the inner one goes back to the outer call. Then a call
that leads nowhere. -/
theorem calls_match_returns_nested :
    let l : Listing := ⟨[⟨.begin, ""⟩, ⟨.call, "f"⟩, ⟨.call, "nowhere"⟩, ⟨.label, "f"⟩,
      ⟨.call, "g"⟩, ⟨.ret, ""⟩, ⟨.label, "g"⟩, ⟨.ret, ""⟩]⟩
    let p : Program := ⟨#[.begin, .call ⟨0⟩, .call ⟨1⟩, .label ⟨0⟩, .call ⟨2⟩, .ret, .label ⟨2⟩, .ret],
      l, ⟨[], [⟨"f", some 3⟩, ⟨"nowhere", none⟩, ⟨"g", some 6⟩], some 0, none⟩, 0⟩
    let m k := (after silent k (start p) ()).1
    Program.ofListing l = .ok p ∧ (m 5).calls = [4, 1] ∧ Unmatched (marks silent 6 (start p) ()) 1 ∧
      Matched (marks silent 7 (start p) ()) 1 6 ∧ (m 7).pc = (m 1).pc + 1 ∧
      (m 7).calls = (m 1).calls ∧
      (step silent (m 7) ()).1.1 = .error (.runtime 3 (.cause (.unresolvedLabel "nowhere"))) := by
  intro l p m
  have h : Program.ofListing l = .ok p := rfl
  have hp : Pending (marks silent 6 (start p) ()) [1] :=
    .call (.balanced (.other .nil)) (.other (.pair (.other .nil) .nil))
  have hu : Unmatched (marks silent 6 (start p) ()) 1 := hp.mem_iff.1 List.mem_cons_self
  have hlast : ∀ k > 1, ¬ Unmatched (marks silent 6 (start p) ()) k := fun k hk hu' =>
    Nat.ne_of_gt hk (List.mem_singleton.1 (hp.mem_iff.2 hu'))
  obtain ⟨_, _, hret, _⟩ := calls_match_returns h silent () 6
  obtain ⟨_, hmatched, hpc, hcalls⟩ := (hret rfl).2 1 hu hlast
  obtain ⟨_, _, _, hcall⟩ := calls_match_returns h silent () 7
  exact ⟨h, rfl, hu, hmatched, hpc, hcalls, (hcall "nowhere" rfl rfl (by decide)).1⟩

end StackMachine.Machine
