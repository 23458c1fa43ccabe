import StackMachine.Proofs.Bound

/-!
# Which listings are programs

A listing is a program if every line is good and one of them is `BEGIN`. A line is good or not by
its own text and the lines in front of it; the symbol table plays no part.

* `Listing.Good`: a line has an operand that fits, and no line in front is in its way.
* `LineFault.unique`: behind good lines, a line has one fault at most.
* **`ofListing_classifies`**: good listings with a beginning are accepted, and of all others the
  first line that is not good is reported.
-/

namespace StackMachine

variable {l : Listing} {rs earlier : List Record} {r r' r'' : Record} {c c' : Cause} {i : Nat}

/-! ## Good lines -/

/-- A line holds a record that can stand there. -/
def Listing.Good (l : Listing) (i : Nat) : Prop :=
  ∃ r, l.records[i]? = some r ∧ Admissible (l.records.take i) r

theorem Listing.good_iff (h : l.records[i]? = some r) :
    l.Good i ↔ Admissible (l.records.take i) r := by
  refine ⟨?_, fun ha => ⟨r, h, ha⟩⟩
  rintro ⟨r', h', ha⟩
  obtain rfl : r = r' := Option.some.inj (h.symm.trans h')
  exact ha

instance (l : Listing) (i : Nat) : Decidable (l.Good i) :=
  match h : l.records[i]? with
  | none => isFalse fun ⟨_, hr, _⟩ => nomatch h.symm.trans hr
  | some _ => decidable_of_iff _ (Listing.good_iff h).symm

theorem Listing.allAdmissible_iff :
    AllAdmissible [] l.records ↔ ∀ i < l.records.length, l.Good i := by
  constructor
  · intro h i hi
    exact ⟨_, List.getElem?_eq_getElem hi, h i _ (List.getElem?_eq_getElem hi)⟩
  · intro h i r hr
    exact (good_iff hr).1 (h i (List.getElem?_eq_some_iff.1 hr).1)

theorem Listing.allAdmissible_take (h : ∀ j < i, l.Good j) :
    AllAdmissible [] (l.records.take i) := by
  intro j r hr
  rw [List.getElem?_take] at hr
  split_ifs at hr with hj
  rw [List.nil_append, List.take_take, Nat.min_eq_left (Nat.le_of_lt hj)]
  exact (good_iff hr).1 (h j hj)

/-! ## One fault at most -/

theorem Record.OperandFault.unique (h : r.OperandFault c) (h' : r.OperandFault c') : c = c' := by
  cases h <;> cases h' <;> simp_all

theorem Record.Clashes.of_common (h : r'.Clashes r) (h' : r''.Clashes r) : r'.Clashes r'' := by
  obtain ⟨ho, hc⟩ := h
  obtain ⟨ho', hc'⟩ := h'.symm
  refine ⟨ho.trans ho', ?_⟩
  rcases hc with hb | hf | ⟨hl, hn⟩
  · exact Or.inl hb
  · exact Or.inr (Or.inl hf)
  · have hr : r.opcode = .label := ho ▸ hl
    refine Or.inr (Or.inr ⟨hl, hn.trans ?_⟩)
    simpa [hr] using hc'

/-- **Behind good lines, a line has one fault at most**: the shape of the operand goes first, and
only one line in front can be in the way. -/
theorem LineFault.unique (ha : AllAdmissible [] earlier) (h : LineFault earlier r c)
    (h' : LineFault earlier r c') : c = c' := by
  cases h with
  | operand hn ho =>
    cases h' with
    | operand _ ho' => exact ho.unique ho'
    | clash hf => exact absurd hf hn
  | clash hf hj hc =>
    cases h' with
    | operand hn => exact absurd hf hn
    | clash _ hk hc' => rw [ha.eq_of_clashes hj hk (hc.of_common hc')]

/-! ## Accepted listings and others -/

theorem exists_ofListing_iff : (∃ p, Program.ofListing l = .ok p) ↔
    (∀ i < l.records.length, l.Good i) ∧ ∃ r ∈ l.records, r.opcode = .begin := by
  rw [← Listing.allAdmissible_iff]
  constructor
  · rintro ⟨p, hp⟩
    have hb := boundTo_of_ofListing hp
    obtain ⟨r, hr, ho⟩ := hb.entry_eq_iff.1 rfl
    exact ⟨hb.admissible, r, List.mem_of_getElem? hr, ho⟩
  · rintro ⟨ha, r, hr, ho⟩
    cases he : opcodeLine? l.records .begin with
    | none => exact absurd ho (opcodeLine?_eq_none_iff.1 he r hr)
    | some entry =>
      obtain ⟨p, hp, _⟩ := ofListing_admissible ha he
      exact ⟨p, hp⟩

/-- **Which listings are programs.** Those whose lines are all good and that have a `BEGIN`; the
program has one instruction per line. Otherwise the first line that is not good is reported with
its only fault, or else the lack of a `BEGIN`. -/
theorem ofListing_classifies (l : Listing) :
    ((∃ p, Program.ofListing l = .ok p) ↔
      (∀ i < l.records.length, l.Good i) ∧ ∃ r ∈ l.records, r.opcode = .begin) ∧
    (∀ p, Program.ofListing l = .ok p →
      p.instructions.toList.map Instruction.opcode = l.records.map Record.opcode ∧
      (∀ k, p.entry = k ↔ ∃ r, l.records[k]? = some r ∧ r.opcode = .begin) ∧
      ∀ k, p.finish? = some k ↔ ∃ r, l.records[k]? = some r ∧ r.opcode = .finish) ∧
    (∀ i r, l.records[i]? = some r → (∀ j < i, l.Good j) → ¬ l.Good i →
      ∃ c, Program.ofListing l = .error (.assembly (i + 1) (.cause c)) ∧
        ∀ c', LineFault (l.records.take i) r c' ↔ c' = c) ∧
    ((∀ i < l.records.length, l.Good i) → (∀ r ∈ l.records, r.opcode ≠ .begin) →
      Program.ofListing l = .error (.cause .missingBegin)) := by
  refine ⟨exists_ofListing_iff, fun p hp => ?_, fun i r hr hlt hi => ?_, fun ha hn => ?_⟩
  · have hb := boundTo_of_ofListing hp
    exact ⟨hb.opcodes, fun k => hb.entry_eq_iff, fun k => hb.finish?_eq_some_iff⟩
  · obtain ⟨c, hc, hf⟩ := ofListing_not_admissible hr (fun ha => hi ((Listing.good_iff hr).2 ha))
      fun j hj r' hr' => (Listing.good_iff hr').1 (hlt j hj)
    have hall := Listing.allAdmissible_take hlt
    exact ⟨c, hc, fun c' => ⟨fun hf' => hf'.unique hall hf, fun e => e ▸ hf⟩⟩
  · exact ofListing_without_begin (Listing.allAdmissible_iff.2 ha) (opcodeLine?_eq_none_iff.2 hn)

/-- A label may be used before its line, but not be defined on two lines. -/
theorem ofListing_classifies_twice_defined :
    let l : Listing :=
      ⟨[⟨.begin, ""⟩, ⟨.jump, "on"⟩, ⟨.label, "on"⟩, ⟨.push, "-7"⟩, ⟨.label, "on"⟩]⟩
    (∀ j < 4, l.Good j) ∧ ¬ l.Good 4 ∧
      Program.ofListing l = .error (.assembly 5 (.cause (.duplicateLabel "on" 3))) ∧
      ∃ p, Program.ofListing ⟨l.records.take 4⟩ = .ok p := by
  intro l
  have hlt : ∀ j < 4, l.Good j := by decide +kernel
  have hi : ¬ l.Good 4 := by decide +kernel
  obtain ⟨c, hc, hu⟩ := (ofListing_classifies l).2.2.1 4 _ rfl hlt hi
  have hfirst : (l.records.take 4)[2]? = some ⟨.label, "on"⟩ := rfl
  have hf : LineFault (l.records.take 4) ⟨.label, "on"⟩ (.duplicateLabel "on" 3) :=
    .clash (by decide +kernel) hfirst ⟨rfl, Or.inr (Or.inr ⟨rfl, rfl⟩)⟩
  refine ⟨hlt, hi, (hu _).1 hf ▸ hc, (ofListing_classifies ⟨l.records.take 4⟩).1.2 ⟨?_, ?_⟩⟩
  · decide +kernel
  · exact ⟨⟨.begin, ""⟩, by decide, rfl⟩

end StackMachine
