import Mathlib.Data.Nat.Find
import StackMachine.Program
import StackMachine.Proofs.Binding

/-!
# Bound programs

What the records of a listing come to when all of them are bound, and what a program has from the
listing that it was bound from.

* `AllAdmissible`: every record can stand behind those in front of it; then lines are unique
  (`AllAdmissible.eq_of_clashes`).
* **`bindFrom_admissible`**, **`bindFrom_not_admissible`**: such records are all bound, and of
  others the first that is not admissible decides the fault.
* `BoundTo`: a program and its listing; **`boundTo_of_ofListing`**.
-/

namespace StackMachine

variable {rs : List Record} {r : Record} {t : SymbolTable} {i : Instruction} {o : Opcode}
  {name : String}

/-! ## Binding all records -/

/-- Every record can stand behind those in front of it. -/
def AllAdmissible (earlier rs : List Record) : Prop :=
  ∀ k r, rs[k]? = some r → Admissible (earlier ++ rs.take k) r

theorem allAdmissible_cons {earlier : List Record} : AllAdmissible earlier (r :: rs) ↔
    Admissible earlier r ∧ AllAdmissible (earlier ++ [r]) rs := by
  constructor
  · intro h
    refine ⟨by simpa using h 0 r rfl, fun k r' hk => ?_⟩
    simpa using h (k + 1) r' hk
  · rintro ⟨h0, h⟩ (_ | k) r' hk
    · cases hk
      simpa using h0
    · simpa using h k r' hk

/-- **Admissible records are all bound.** -/
theorem bindFrom_admissible {earlier : List Record} (h : Describes earlier t)
    (ha : AllAdmissible earlier rs) :
    ∃ is t', bindFrom t earlier.length rs = .ok (is, t') ∧ Describes (earlier ++ rs) t' ∧
      t.Extends t' ∧ List.Forall₂ (Binds t') rs is := by
  -- the table of the records in front is all that the records behind need to know of them
  induction rs generalizing earlier t with
  | nil => exact ⟨[], t, rfl, by simpa using h, .refl t, .nil⟩
  | cons r rs ih =>
    obtain ⟨h0, ha⟩ := allAdmissible_cons.1 ha
    obtain ⟨i, t₁, hb, hd, hx, hi⟩ := Instruction.bind_admissible h h0
    obtain ⟨is, t', hr, hd', hx', his⟩ := ih hd ha
    rw [List.length_append, List.length_singleton] at hr
    refine ⟨i :: is, t', ?_, by simpa using hd', hx.trans hx', .cons (hi.mono hx') his⟩
    simp only [bindFrom, hb, hr]

/-- **The first record that is not admissible decides the fault.** -/
theorem bindFrom_not_admissible {earlier : List Record} (h : Describes earlier t) {k : Nat}
    (hk : rs[k]? = some r) (hr : ¬ Admissible (earlier ++ rs.take k) r)
    (ha : ∀ j < k, ∀ r', rs[j]? = some r' → Admissible (earlier ++ rs.take j) r') :
    ∃ c, bindFrom t earlier.length rs = .error (.assembly (earlier.length + k + 1) (.cause c)) ∧
      LineFault (earlier ++ rs.take k) r c := by
  induction rs generalizing earlier t k with
  | nil => cases hk
  | cons r₀ rs ih =>
    cases k with
    | zero =>
      cases hk
      rw [List.take_zero, List.append_nil] at hr ⊢
      obtain ⟨c, t', hb, hc⟩ := Instruction.bind_not_admissible h hr
      exact ⟨c, by simp only [bindFrom, hb, Fault.atLine_cause, Nat.add_zero], hc⟩
    | succ k =>
      have h0 : Admissible earlier r₀ := by simpa using ha 0 (Nat.succ_pos k) r₀ rfl
      obtain ⟨i, t₁, hb, hd, _⟩ := Instruction.bind_admissible h h0
      have e : ∀ j, earlier ++ (r₀ :: rs).take (j + 1) = (earlier ++ [r₀]) ++ rs.take j := by
        simp
      rw [e] at hr ⊢
      obtain ⟨c, hf, hc⟩ := ih hd hk hr fun j hj r' hr' => e j ▸ ha (j + 1) (by omega) r' hr'
      refine ⟨c, ?_, hc⟩
      rw [List.length_append, List.length_singleton] at hf
      simp only [bindFrom, hb, hf]
      rw [show earlier.length + (k + 1) + 1 = earlier.length + 1 + k + 1 by omega]

theorem exists_first_not_admissible {earlier : List Record} (h : ¬ AllAdmissible earlier rs) :
    ∃ k r, rs[k]? = some r ∧ ¬ Admissible (earlier ++ rs.take k) r ∧
      ∀ j < k, ∀ r', rs[j]? = some r' → Admissible (earlier ++ rs.take j) r' := by
  classical
  have hex : ∃ k r, rs[k]? = some r ∧ ¬ Admissible (earlier ++ rs.take k) r := by
    by_contra hn
    refine h fun k r hk => ?_
    by_contra hr
    exact hn ⟨k, r, hk, hr⟩
  obtain ⟨r, hk, hr⟩ := Nat.find_spec hex
  refine ⟨Nat.find hex, r, hk, hr, fun j hj r' hr' => ?_⟩
  by_contra hn
  exact Nat.find_min hex hj ⟨r', hr', hn⟩

theorem Record.Clashes.symm {r' : Record} (h : r.Clashes r') : r'.Clashes r := by
  obtain ⟨ho, hc⟩ := h
  rw [ho] at hc
  exact ⟨ho.symm, hc.imp_right (Or.imp_right (And.imp_right Eq.symm))⟩

theorem AllAdmissible.eq_of_clashes (h : AllAdmissible [] rs) {j k : Nat} {r' : Record}
    (hj : rs[j]? = some r') (hk : rs[k]? = some r) (hc : r'.Clashes r) : j = k := by
  -- the record on the later of two lines would have the other one in its way
  have key : ∀ {j k : Nat} {r' r : Record}, rs[j]? = some r' → rs[k]? = some r → r'.Clashes r →
      ¬ j < k := by
    intro j k r' r hj hk hc hlt
    have hm : r' ∈ rs.take k := List.mem_of_getElem? (by rw [List.getElem?_take_of_lt hlt, hj])
    exact (h k r hk).2 r' hm hc
  have h₁ := key hj hk hc
  have h₂ := key hk hj hc.symm
  omega

theorem AllAdmissible.opcodeLine?_eq_some_iff (h : AllAdmissible [] rs)
    (ho : o = .begin ∨ o = .finish) {k : Nat} :
    opcodeLine? rs o = some k ↔ ∃ r, rs[k]? = some r ∧ r.opcode = o := by
  refine ⟨exists_of_opcodeLine?, fun ⟨r, hk, hr⟩ => ?_⟩
  cases hb : opcodeLine? rs o with
  | none => exact absurd hr (opcodeLine?_eq_none_iff.1 hb r (List.mem_of_getElem? hk))
  | some j =>
    obtain ⟨r', hj, hr'⟩ := exists_of_opcodeLine? hb
    have hc : r'.Clashes r := ⟨hr'.trans hr.symm, hr' ▸ ho.imp_right Or.inl⟩
    rw [h.eq_of_clashes hj hk hc]

theorem AllAdmissible.labelLine?_eq_some_iff (h : AllAdmissible [] rs) {k : Nat} :
    labelLine? rs name = some k ↔ rs[k]? = some ⟨.label, name⟩ := by
  refine ⟨getElem?_of_labelLine?, fun hk => ?_⟩
  cases hb : labelLine? rs name with
  | none => exact absurd (List.mem_of_getElem? hk) (labelLine?_eq_none_iff.1 hb)
  | some j =>
    rw [h.eq_of_clashes (getElem?_of_labelLine? hb) hk ⟨rfl, Or.inr (Or.inr ⟨rfl, rfl⟩)⟩]

/-! ## Programs of a listing -/

/-- What a program has from the listing it was bound from. -/
structure BoundTo (l : Listing) (p : Program) : Prop where
  listing : p.listing = l
  admissible : AllAdmissible [] l.records
  table : Describes l.records p.symbols
  instructions : List.Forall₂ (Binds p.symbols) l.records p.instructions.toList
  entry : opcodeLine? l.records .begin = some p.entry

/-- **A listing whose records are admissible and that begins somewhere is bound.** -/
theorem ofListing_admissible {l : Listing} {entry : Nat} (ha : AllAdmissible [] l.records)
    (he : opcodeLine? l.records .begin = some entry) :
    ∃ p, Program.ofListing l = .ok p ∧ BoundTo l p := by
  obtain ⟨is, t, hb, hd, _, hi⟩ := bindFrom_admissible describes_empty ha
  have hbegin : t.begin = some entry := hd.begin.trans he
  have hp := Program.ofListing_eq_ok_iff.2 ⟨is, t, entry, hb, hbegin, rfl⟩
  exact ⟨⟨is.toArray, l, t, entry⟩, hp, rfl, ha, hd, by simpa using hi, he⟩

theorem ofListing_without_begin {l : Listing} (ha : AllAdmissible [] l.records)
    (he : opcodeLine? l.records .begin = none) :
    Program.ofListing l = .error (.cause .missingBegin) := by
  obtain ⟨is, t, hb, hd, _⟩ := bindFrom_admissible describes_empty ha
  have hbegin : t.begin = none := hd.begin.trans he
  rw [Program.ofListing, show bindFrom .empty 0 l.records = _ from hb]
  simp only [hbegin]

theorem ofListing_not_admissible {l : Listing} {k : Nat} (hk : l.records[k]? = some r)
    (hr : ¬ Admissible (l.records.take k) r)
    (ha : ∀ j < k, ∀ r', l.records[j]? = some r' → Admissible (l.records.take j) r') :
    ∃ c, Program.ofListing l = .error (.assembly (k + 1) (.cause c)) ∧
      LineFault (l.records.take k) r c := by
  obtain ⟨c, hb, hc⟩ := bindFrom_not_admissible describes_empty hk hr ha
  refine ⟨c, ?_, hc⟩
  rw [List.length_nil, Nat.zero_add] at hb
  rw [Program.ofListing, show bindFrom .empty 0 l.records = _ from hb]

/-- **A program that was bound from a listing is bound to it.** -/
theorem boundTo_of_ofListing {l : Listing} {p : Program} (h : Program.ofListing l = .ok p) :
    BoundTo l p := by
  by_cases ha : AllAdmissible [] l.records
  · cases he : opcodeLine? l.records .begin with
    | none => rw [ofListing_without_begin ha he] at h; cases h
    | some entry =>
      obtain ⟨p', hp, hb⟩ := ofListing_admissible ha he
      rw [hp] at h
      cases h
      exact hb
  · obtain ⟨k, r, hk, hr, hlt⟩ := exists_first_not_admissible ha
    obtain ⟨c, hc, _⟩ := ofListing_not_admissible hk hr hlt
    rw [hc] at h
    cases h

/-! ## What a program has from its lines -/

namespace BoundTo

variable {l : Listing} {p : Program} (h : BoundTo l p) {k : Nat}

include h

theorem length : p.length = l.records.length :=
  h.instructions.length_eq.symm

theorem fits {r : Record} (hr : r ∈ l.records) : r.Fits := by
  obtain ⟨k, hk⟩ := List.mem_iff_getElem?.1 hr
  exact (h.admissible k r hk).1

theorem binds_of_get? (hi : p.get? k = some i) :
    ∃ r, l.records[k]? = some r ∧ Binds p.symbols r i := by
  rw [Program.get?, ← Array.getElem?_toList] at hi
  obtain ⟨hk, rfl⟩ := List.getElem?_eq_some_iff.1 hi
  have hk' : k < l.records.length := h.instructions.length_eq ▸ hk
  exact ⟨_, List.getElem?_eq_getElem hk', h.instructions.get hk' hk⟩

theorem opcodes : p.instructions.toList.map Instruction.opcode = l.records.map Record.opcode := by
  generalize p.instructions.toList = is, l.records = rs, h.instructions = hi
  induction hi with
  | nil => rfl
  | cons hb _ ih => rw [List.map_cons, List.map_cons, hb.opcode, ih]

theorem entry_eq_iff : p.entry = k ↔ ∃ r, l.records[k]? = some r ∧ r.opcode = .begin := by
  rw [← h.admissible.opcodeLine?_eq_some_iff (Or.inl rfl), h.entry, Option.some.injEq]

theorem finish?_eq_some_iff :
    p.finish? = some k ↔ ∃ r, l.records[k]? = some r ∧ r.opcode = .finish := by
  rw [← h.admissible.opcodeLine?_eq_some_iff (Or.inr rfl), Program.finish?, h.table.finish]

theorem entry_lt : p.entry < p.length := by
  obtain ⟨r, hr, _⟩ := h.entry_eq_iff.1 rfl
  exact h.length ▸ (List.getElem?_eq_some_iff.1 hr).1

/-- A label leads to a line of the program, whichever handle it is asked for by. -/
theorem lt_of_labelTarget? {id : LabelId} (ht : p.symbols.labelTarget? id = some k) :
    k < p.length := by
  obtain ⟨e, he, hk⟩ := Option.bind_eq_some_iff.1 ht
  rw [h.table.target e (List.mem_of_getElem? he)] at hk
  exact h.length ▸ (List.getElem?_eq_some_iff.1 (getElem?_of_labelLine? hk)).1

end BoundTo

end StackMachine
