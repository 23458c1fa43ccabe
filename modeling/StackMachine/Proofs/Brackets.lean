import Mathlib.Data.List.Sort

/-!
# Calls and returns as brackets

What the steps of a run mean for the pending calls is a word of marks, one for each step. A call
and its return enclose a balanced part of the word, as two brackets do.

* `Balanced`: every call has its return and every return its call.
* `Matched`, `Unmatched`: the return of a call, and a call that has none.
* `height?`: counts the calls that are open; a balanced word leaves the count as it was.
* `Pending`: a word cut at the calls that are open at its end; **`Pending.mem_iff`**: these are
  the unmatched calls, and `Pending.unique`: there is only one way to cut.
-/

namespace StackMachine

/-- What a step does to the pending calls. -/
inductive Mark
  /-- It adds one. -/
  | call
  /-- It takes the latest one away. -/
  | ret
  | other
  deriving DecidableEq, Repr

/-! ## Balanced words -/

/-- Words in which every call is returned from and every return has its call. -/
inductive Balanced : List Mark → Prop
  | nil : Balanced []
  | other {w : List Mark} : Balanced w → Balanced (.other :: w)
  | pair {body rest : List Mark} : Balanced body → Balanced rest →
      Balanced (.call :: (body ++ .ret :: rest))

/-- The call at one place of a word is returned from at another. -/
def Matched (w : List Mark) (i j : Nat) : Prop :=
  ∃ before body behind, w = before ++ .call :: (body ++ .ret :: behind) ∧ Balanced body ∧
    before.length = i ∧ i + body.length + 1 = j

/-- The call at a place of a word is not returned from. -/
def Unmatched (w : List Mark) (i : Nat) : Prop :=
  w[i]? = some .call ∧ ∀ j, ¬ Matched w i j

variable {u v w : List Mark} {i j : Nat} {is is' : List Nat}

theorem Balanced.append (hu : Balanced u) (hv : Balanced v) : Balanced (u ++ v) := by
  induction hu with
  | nil => exact hv
  | other _ ih => exact .other ih
  | pair hb _ _ ih =>
    rw [List.cons_append, List.append_assoc, List.cons_append]
    exact .pair hb ih

theorem Matched.append (h : Matched w i j) (u v : List Mark) :
    Matched (u ++ w ++ v) (u.length + i) (u.length + j) := by
  obtain ⟨before, body, behind, rfl, hb, rfl, rfl⟩ := h
  refine ⟨u ++ before, body, behind ++ v, by simp, hb, List.length_append, ?_⟩
  omega

theorem Matched.cons (h : Matched w i j) (a : Mark) : Matched (a :: w) (i + 1) (j + 1) := by
  have hc := h.append [a] []
  rw [List.append_nil, List.singleton_append, List.length_singleton] at hc
  rwa [Nat.add_comm i, Nat.add_comm j]

theorem Balanced.exists_matched (h : Balanced w) (hi : w[i]? = some .call) :
    ∃ j, Matched w i j := by
  induction h generalizing i with
  | nil => cases hi
  | other _ ih =>
    cases i with
    | zero => cases hi
    | succ i =>
      obtain ⟨j, hj⟩ := ih hi
      exact ⟨j + 1, hj.cons _⟩
  | @pair body rest hb _ ihb ihr =>
    cases i with
    | zero => exact ⟨_, [], body, rest, rfl, hb, rfl, rfl⟩
    | succ i =>
      rw [List.getElem?_cons_succ] at hi
      rcases Nat.lt_or_ge i body.length with hlt | hge
      · rw [List.getElem?_append_left hlt] at hi
        obtain ⟨j, hj⟩ := ihb hi
        refine ⟨j + 1, Matched.cons ?_ _⟩
        simpa using hj.append [] (.ret :: rest)
      · obtain ⟨k, rfl⟩ := Nat.exists_eq_add_of_le hge
        rw [List.getElem?_append_right hge, Nat.add_sub_cancel_left] at hi
        cases k with
        | zero => cases hi
        | succ k =>
          obtain ⟨j, hj⟩ := ihr hi
          refine ⟨body.length + 1 + j + 1, Matched.cons ?_ _⟩
          have hc := hj.append (body ++ [.ret]) []
          rw [List.append_nil, List.append_assoc, List.singleton_append, List.length_append,
            List.length_singleton] at hc
          rwa [Nat.add_assoc _ 1, Nat.add_comm 1] at hc

/-! ## Counting open calls -/

/-- The number of open calls behind a word, given the number in front of it; there is none if the
word returns once too often. -/
def height? (d : Nat) : List Mark → Option Nat
  | [] => some d
  | .call :: w => height? (d + 1) w
  | .other :: w => height? d w
  | .ret :: w =>
    match d with
    | 0 => none
    | d + 1 => height? d w

theorem height?_append (d : Nat) (u v : List Mark) :
    height? d (u ++ v) = (height? d u).bind (height? · v) := by
  induction u generalizing d with
  | nil => rfl
  | cons a u ih =>
    cases a with
    | call => exact ih (d + 1)
    | other => exact ih d
    | ret =>
      cases d with
      | zero => rfl
      | succ d => exact ih d

/-- **A balanced word leaves the number of open calls as it was.** -/
theorem Balanced.height?_eq (h : Balanced w) (d : Nat) : height? d w = some d := by
  induction h generalizing d with
  | nil => rfl
  | other _ ih => exact ih d
  | pair _ _ ihb ihr =>
    rw [height?, height?_append, ihb]
    exact ihr d

theorem unmatched_of_height? (h : (height? 0 v).isSome) : Unmatched (u ++ .call :: v) u.length := by
  refine ⟨by simp, ?_⟩
  rintro j ⟨before, body, behind, e, hb, hlen, -⟩
  obtain ⟨-, hv⟩ := List.append_inj e hlen.symm
  obtain rfl : v = body ++ .ret :: behind := List.tail_eq_of_cons_eq hv
  rw [height?_append, hb.height?_eq] at h
  cases h

/-! ## Open calls -/

/-- A word cut at the calls that are open at its end, the latest first. -/
inductive Pending : List Mark → List Nat → Prop
  | balanced {w : List Mark} : Balanced w → Pending w []
  | call {w u : List Mark} {is : List Nat} : Pending w is → Balanced u →
      Pending (w ++ .call :: u) (w.length :: is)

namespace Pending

theorem append (h : Pending w is) (hu : Balanced u) : Pending (w ++ u) is := by
  cases h with
  | balanced hw => exact .balanced (hw.append hu)
  | call h hv =>
    rw [List.append_assoc, List.cons_append]
    exact .call h (hv.append hu)

theorem append_ret (h : Pending w (i :: is)) :
    Pending (w ++ [.ret]) is ∧ Matched (w ++ [.ret]) i w.length := by
  cases h with
  | @call w u _ h hu =>
    have e : w ++ .call :: u ++ [.ret] = w ++ .call :: (u ++ .ret :: []) := by simp
    rw [e]
    refine ⟨h.append (.pair hu .nil), w, u, [], rfl, hu, rfl, ?_⟩
    rw [List.length_append, List.length_cons, Nat.add_assoc]

theorem exists_of_mem (h : Pending w is) (hi : i ∈ is) :
    ∃ before behind, w = before ++ .call :: behind ∧ before.length = i ∧
      (height? 0 behind).isSome := by
  induction h with
  | balanced => cases hi
  | @call w u _ _ hu ih =>
    rcases List.mem_cons.1 hi with rfl | hi
    · exact ⟨w, u, rfl, rfl, by rw [hu.height?_eq]; rfl⟩
    · obtain ⟨before, behind, rfl, hlen, hh⟩ := ih hi
      refine ⟨before, behind ++ .call :: u, by simp, hlen, ?_⟩
      obtain ⟨d, hd⟩ := Option.isSome_iff_exists.1 hh
      rw [height?_append, hd, Option.bind_some, height?, hu.height?_eq]
      rfl

theorem lt_length (h : Pending w is) (hi : i ∈ is) : i < w.length := by
  obtain ⟨before, behind, rfl, rfl, _⟩ := h.exists_of_mem hi
  simp

theorem mem_or_matched (h : Pending w is) (hi : w[i]? = some .call) :
    i ∈ is ∨ ∃ j, Matched w i j := by
  induction h with
  | balanced hw => exact Or.inr (hw.exists_matched hi)
  | @call w u is _ hu ih =>
    rcases Nat.lt_trichotomy i w.length with hlt | rfl | hgt
    · rw [List.getElem?_append_left hlt] at hi
      refine (ih hi).imp (List.mem_cons_of_mem _) fun ⟨j, hj⟩ => ⟨j, ?_⟩
      simpa using hj.append [] (.call :: u)
    · exact Or.inl List.mem_cons_self
    · obtain ⟨k, rfl⟩ := Nat.exists_eq_add_of_lt hgt
      rw [List.getElem?_append_right (by omega),
        show w.length + k + 1 - w.length = k + 1 by omega] at hi
      obtain ⟨j, hj⟩ := hu.exists_matched hi
      refine Or.inr ⟨w.length + (j + 1), ?_⟩
      simpa [Nat.add_assoc] using (hj.cons .call).append w []

/-- **The calls at which a word is cut are its unmatched calls.** -/
theorem mem_iff (h : Pending w is) : i ∈ is ↔ Unmatched w i := by
  constructor
  · intro hi
    obtain ⟨before, behind, rfl, rfl, hh⟩ := h.exists_of_mem hi
    exact unmatched_of_height? hh
  · rintro ⟨hi, hn⟩
    exact (h.mem_or_matched hi).resolve_right fun ⟨j, hj⟩ => hn j hj

theorem pairwise (h : Pending w is) : is.Pairwise (· > ·) := by
  induction h with
  | balanced => exact .nil
  | call h _ ih => exact List.pairwise_cons.2 ⟨fun i hi => h.lt_length hi, ih⟩

/-- **There is only one way to cut a word at its open calls.** -/
theorem unique (h : Pending w is) (h' : Pending w is') : is = is' := by
  have hmem : ∀ i, i ∈ is ↔ i ∈ is' := fun i => h.mem_iff.trans h'.mem_iff.symm
  have hp : is.Perm is' :=
    (List.perm_ext_iff_of_nodup (h.pairwise.imp Nat.ne_of_gt) (h'.pairwise.imp Nat.ne_of_gt)).2 hmem
  exact hp.eq_of_pairwise (fun _ _ _ _ h h' => absurd h (Nat.lt_asymm h')) h.pairwise h'.pairwise

end Pending

end StackMachine
