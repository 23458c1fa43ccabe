import Mathlib.Data.List.DropRight
import StackMachine.Diagnostic
import StackMachine.Proofs.Acceptance
import StackMachine.Proofs.Faults
import StackMachine.Proofs.Image
import StackMachine.Proofs.Safety

/-!
# Source lines

Assembling keeps the lines of the source text: every line gives one record, one instruction and
one number. A fault carries the number of the line it was found on, whichever stage found it.

* `FirstError`: the first failure of a list, which is what `collect` reports.
* `lineRecords`: the records that the lines of a text spell; `Listing.ofSource_eq_ok`,
  `Listing.ofSource_eq_error`: the listing of a text.
* `AtFault`: what is wrong with a line of a text, by the phase that finds it;
  `Program.atFault_of_assemble`.
* `Diagnostic.quoting`: a report that shows a line.
* `Machine.exists_line_of_fault`: the line that the fault of a run names.
* **`assemble_keeps_lines`**: assembling, running and reporting all speak of the same lines.
-/

namespace StackMachine

/-! ## First failures -/

section FirstError

variable {ε α : Type} {l : List (Except ε α)} {k : Nat} {e : ε}

/-- An element of a list failed, and none in front of it. -/
def FirstError (l : List (Except ε α)) (k : Nat) (e : ε) : Prop :=
  l[k]? = some (.error e) ∧ ∀ j < k, ∃ a, l[j]? = some (.ok a)

theorem collect_map_ok (as : List α) : collect (as.map (.ok : α → Except ε α)) = .ok as := by
  induction as with
  | nil => rfl
  | cons a as ih => rw [List.map_cons, collect, ih]

/-- The first failure decides, whatever stands behind it. -/
theorem collect_of_firstError (h : FirstError l k e) : collect l = .error e := by
  obtain ⟨hk, hlt⟩ := h
  induction l generalizing k with
  | nil => cases hk
  | cons x l ih =>
    cases k with
    | zero =>
      cases hk
      rfl
    | succ k =>
      obtain ⟨a, ha⟩ := hlt 0 (Nat.succ_pos k)
      obtain rfl : x = .ok a := Option.some.inj ha
      rw [collect, ih hk fun j hj => hlt (j + 1) (Nat.succ_lt_succ hj)]

theorem map_ok_or_firstError (l : List (Except ε α)) :
    (∃ as : List α, l = as.map .ok) ∨ ∃ k e, FirstError l k e := by
  induction l with
  | nil => exact Or.inl ⟨[], rfl⟩
  | cons x l ih =>
    cases x with
    | error e => exact Or.inr ⟨0, e, rfl, nofun⟩
    | ok a =>
      obtain ⟨as, rfl⟩ | ⟨k, e, hk, hlt⟩ := ih
      · exact Or.inl ⟨a :: as, rfl⟩
      · refine Or.inr ⟨k + 1, e, hk, ?_⟩
        rintro (_ | j) hj
        · exact ⟨a, rfl⟩
        · exact hlt j (Nat.lt_of_succ_lt_succ hj)

end FirstError

/-! ## The listing of a text -/

variable {source : String} {rs : List Record} {k : Nat} {c : Cause} {f : Fault}

/-- The record that a line spells, if its words and its mnemonic are right. -/
def lineRecord (line : List Char) : Except Cause Record :=
  match SourceLine.parse (String.ofList line) with
  | .error c => .error c
  | .ok l => l.resolve

/-- The records that the lines of a text spell. -/
def lineRecords (source : String) : List (Except Cause Record) :=
  (lines source.toList).map lineRecord

theorem exists_line_of_getElem? {x : Except Cause Record} (h : (lineRecords source)[k]? = some x) :
    ∃ line, (lines source.toList)[k]? = some line ∧ lineRecord line = x := by
  rw [lineRecords, List.getElem?_map] at h
  exact Option.map_eq_some_iff.1 h

/-- Every fault of a line carries its number, whether its words or its mnemonic are wrong. -/
theorem mapIdx_resolveLine_tokenize (source : String) :
    (tokenize source).mapIdx resolveLine = (lineRecords source).mapIdx tagLine := by
  rw [tokenize, List.mapIdx_mapIdx, lineRecords, List.mapIdx_eq_iff]
  intro k
  rw [List.getElem?_mapIdx, List.getElem?_map, Option.map_map]
  refine congrArg (Option.map · _) (funext fun line => ?_)
  unfold lineRecord
  rw [Function.comp_apply, Function.comp_apply]
  -- wrong words are tagged when they are read, an unknown mnemonic when it is looked up
  cases SourceLine.parse (String.ofList line) with
  | error c => rfl
  | ok l => rfl

theorem Listing.ofSource_eq_ok (h : lineRecords source = rs.map .ok) :
    ofSource source = .ok ⟨rs⟩ := by
  have htag : (lineRecords source).mapIdx tagLine = rs.map .ok := by
    rw [h, List.mapIdx_eq_iff]
    intro k
    rw [List.getElem?_map, List.getElem?_map, Option.map_map]
    rfl
  rw [ofSource, mapIdx_resolveLine_tokenize, htag, collect_map_ok]

theorem Listing.ofSource_eq_error (h : FirstError (lineRecords source) k c) :
    ofSource source = .error (.assembly (k + 1) (.cause c)) := by
  obtain ⟨hk, hlt⟩ := h
  have htag : FirstError ((lineRecords source).mapIdx tagLine) k
      (.assembly (k + 1) (.cause c)) := by
    refine ⟨by rw [List.getElem?_mapIdx, hk]; rfl, fun j hj => ?_⟩
    obtain ⟨r, hr⟩ := hlt j hj
    exact ⟨r, by rw [List.getElem?_mapIdx, hr]; rfl⟩
  rw [ofSource, mapIdx_resolveLine_tokenize, collect_of_firstError htag]

theorem Program.assemble_eq_ofListing (h : lineRecords source = rs.map .ok) :
    assemble source = ofListing ⟨rs⟩ := by
  rw [assemble, Listing.ofSource_eq_ok h]

theorem Program.assemble_eq_error (h : FirstError (lineRecords source) k c) :
    assemble source = .error (.assembly (k + 1) (.cause c)) := by
  rw [assemble, Listing.ofSource_eq_error h]

/-- The records of an assembled program are those of the lines. -/
theorem Program.boundTo_of_assemble {p : Program} (h : assemble source = .ok p) :
    BoundTo p.listing p ∧ lineRecords source = p.listing.records.map .ok := by
  obtain ⟨rs, hrs⟩ | ⟨k, c, hf⟩ := map_ok_or_firstError (lineRecords source)
  · rw [assemble_eq_ofListing hrs] at h
    have hb := boundTo_of_ofListing h
    rw [hb.listing]
    exact ⟨hb, hrs⟩
  · rw [assemble_eq_error hf] at h
    cases h

/-! ## Lines at fault -/

/-- What is wrong with a line of a text, by the phase that finds it. -/
inductive AtFault (source : String) (k : Nat) (c : Cause) : Prop
  /-- The line is the first one that spells no record; no operand has been looked at yet. -/
  | spelling : FirstError (lineRecords source) k c → AtFault source k c
  /-- Every line spells a record, but that of the line cannot stand behind those in front. -/
  | record {rs : List Record} {r : Record} : lineRecords source = rs.map .ok → rs[k]? = some r →
      LineFault (rs.take k) r c → AtFault source k c

theorem AtFault.exists_line (h : AtFault source k c) :
    ∃ line, (lines source.toList)[k]? = some line := by
  have hk : ∃ x, (lineRecords source)[k]? = some x := by
    cases h with
    | spelling h => exact ⟨_, h.1⟩
    | record hrs hr => exact ⟨_, by rw [hrs, List.getElem?_map, hr]; rfl⟩
  obtain ⟨x, hx⟩ := hk
  obtain ⟨line, hline, _⟩ := exists_line_of_getElem? hx
  exact ⟨line, hline⟩

theorem exists_lineFault_of_ofListing {l : Listing} (h : Program.ofListing l = .error f) :
    f = .cause .missingBegin ∨ ∃ k r c, l.records[k]? = some r ∧
      LineFault (l.records.take k) r c ∧ f = .assembly (k + 1) (.cause c) := by
  by_cases ha : AllAdmissible [] l.records
  · cases he : opcodeLine? l.records .begin with
    | none =>
      rw [ofListing_without_begin ha he] at h
      exact Or.inl (Except.error.inj h).symm
    | some entry =>
      obtain ⟨p, hp, _⟩ := ofListing_admissible ha he
      rw [hp] at h
      cases h
  · obtain ⟨k, r, hk, hr, hlt⟩ := exists_first_not_admissible ha
    obtain ⟨c, hc, hf⟩ := ofListing_not_admissible hk hr hlt
    rw [hc] at h
    exact Or.inr ⟨k, r, c, hk, hf, (Except.error.inj h).symm⟩

/-- **Why a text cannot be assembled**: a line is at fault, or there is no `BEGIN`. -/
theorem Program.atFault_of_assemble (h : assemble source = .error f) :
    f = .cause .missingBegin ∨ ∃ k c, AtFault source k c ∧ f = .assembly (k + 1) (.cause c) := by
  obtain ⟨rs, hrs⟩ | ⟨k, c, hf⟩ := map_ok_or_firstError (lineRecords source)
  · rw [assemble_eq_ofListing hrs] at h
    refine (exists_lineFault_of_ofListing h).imp_right ?_
    rintro ⟨k, r, c, hr, hc, rfl⟩
    exact ⟨k, c, .record hrs hr hc, rfl⟩
  · rw [assemble_eq_error hf] at h
    exact Or.inr ⟨k, c, .spelling hf, (Except.error.inj h).symm⟩

/-! ## Reports -/

namespace Diagnostic

/-- The report on a line, counted from 1, that shows the line without carriage returns. -/
def quoting (file message : String) (number : Nat) (line : List Char) : String :=
  let shown := String.ofList (line.rdropWhile (· == '\r'))
  s!"error: {message}\n --> {file}:{number}\n" ++
    s!"  |\n{Column.right 4 (toString number)} | {shown}\n  |\n"

theorem ofFault_eq_quoting {line : List Char} (hk : (lines source.toList)[k]? = some line)
    (file : String) : ofFault file source (.assembly (k + 1) (.cause c)) =
      quoting file c.message (k + 1) line := by
  rw [ofFault, atLine, excerpt, Nat.add_sub_cancel, hk]
  rfl

end Diagnostic

/-! ## Faults of a run -/

/-- The instruction that fails in a run is bound from the record on its line. -/
theorem Machine.exists_record_of_fault {l : Listing} {p : Program} (hb : BoundTo l p) {σ : Type}
    (console : Console σ) (s : σ) {n : Nat}
    (h : (results console n (start p) s)[k]? = some (.error f)) :
    let (m, s) := after console k (start p) s
    ∃ r i, l.records[m.pc]? = some r ∧ m.next? = some i ∧ Binds p.symbols r i ∧
      ((∃ c, f = .runtime (m.pc + 1) (.cause c)) ∨ f.line?.isSome ∧ console.Answers s f) := by
  have hlt : k < n := by simpa using (List.getElem?_eq_some_iff.1 h).1
  rw [getElem?_results console _ _ hlt] at h
  obtain ⟨i, hi, hf⟩ := fault_cases console (Option.some.inj h)
  obtain ⟨r, hr, hbi⟩ := (inside_after console hb k).binds hb hi
  exact ⟨r, i, hr, hi, hbi, hf⟩

/-- **The fault of a run names the line of the text whose instruction failed.** -/
theorem Machine.exists_line_of_fault {p : Program} (hp : Program.assemble source = .ok p)
    {σ : Type} (console : Console σ) (s : σ) {n : Nat}
    (h : (results console n (start p) s)[k]? = some (.error f)) :
    let (m, s) := after console k (start p) s
    ∃ line r i, (lines source.toList)[m.pc]? = some line ∧ lineRecord line = .ok r ∧
      m.next? = some i ∧ Binds p.symbols r i ∧
      ((∃ c, f = .runtime (m.pc + 1) (.cause c)) ∨ f.line?.isSome ∧ console.Answers s f) := by
  obtain ⟨hb, hrs⟩ := Program.boundTo_of_assemble hp
  obtain ⟨r, i, hr, hi, hbi, hcases⟩ := exists_record_of_fault hb console s h
  have hx : (lineRecords source)[(after console k (start p) s).1.pc]? = some (.ok r) := by
    rw [hrs, List.getElem?_map, hr]
    rfl
  obtain ⟨line, hline, hlr⟩ := exists_line_of_getElem? hx
  exact ⟨line, r, i, hline, hlr, hi, hbi, hcases⟩

/-- **Assembling keeps the lines of a text.** Every line is read on its own, and a fault in it is
tagged with its number. The first line that spells no record decides, whatever is wrong with the
operands and labels of other lines; without such a line the listing of the records decides.

A fault with a line is about that line of the text, and the report quotes it. A program has an
instruction for every line, and so has the program that is read back from its image. A fault of
its run carries the line of the instruction that failed, unless the console had tagged the fault;
the console on byte streams does not. -/
theorem assemble_keeps_lines (source : String) :
    (tokenize source).length = (lines source.toList).length ∧
    (∀ k line, (lines source.toList)[k]? = some line → (tokenize source)[k]? =
      some ((SourceLine.parse (String.ofList line)).mapError
        fun c => Fault.assembly (k + 1) (.cause c))) ∧
    (∀ k c, FirstError (lineRecords source) k c →
      Program.assemble source = .error (.assembly (k + 1) (.cause c))) ∧
    (∀ rs, lineRecords source = rs.map .ok →
      Program.assemble source = Program.ofListing ⟨rs⟩) ∧
    (∀ f, Program.assemble source = .error f → f = .cause .missingBegin ∨
      ∃ k c line, f = .assembly (k + 1) (.cause c) ∧ AtFault source k c ∧
        (lines source.toList)[k]? = some line ∧ ∀ file, Diagnostic.ofFault file source f =
          Diagnostic.quoting file c.message (k + 1) line) ∧
    (∀ p, Program.assemble source = .ok p → p.length = (lines source.toList).length ∧
      lineRecords source = p.listing.records.map .ok ∧ Program.load p.image = .ok p ∧
      ∀ {σ : Type} (console : Console σ) (s : σ) (n k : Nat) (f : Fault),
        (Machine.results console n (.start p) s)[k]? = some (.error f) →
        let (m, s) := Machine.after console k (.start p) s
        ∃ line r i, (lines source.toList)[m.pc]? = some line ∧ lineRecord line = .ok r ∧
          m.next? = some i ∧ Binds p.symbols r i ∧
          ((∃ c, f = .runtime (m.pc + 1) (.cause c)) ∨ f.line?.isSome ∧ console.Answers s f)) ∧
    ∀ s f, Stream.console.Answers s f → f.line? = none := by
  refine ⟨length_tokenize source, fun k line hk => ?_, fun k c => Program.assemble_eq_error,
    fun rs => Program.assemble_eq_ofListing, fun f hf => ?_, fun p hp => ?_,
    fun s f => Stream.untagged_of_answers⟩
  · rw [tokenize, List.getElem?_mapIdx, hk, Option.map_some]
    cases SourceLine.parse (String.ofList line) with
    | error c => rfl
    | ok l => rfl
  · refine (Program.atFault_of_assemble hf).imp_right ?_
    rintro ⟨k, c, hc, rfl⟩
    obtain ⟨line, hline⟩ := hc.exists_line
    exact ⟨k, c, line, rfl, hc, hline, Diagnostic.ofFault_eq_quoting hline⟩
  · obtain ⟨hb, hrs⟩ := Program.boundTo_of_assemble hp
    have hlength : (lines source.toList).length = p.listing.records.length := by
      simpa [lineRecords] using congrArg List.length hrs
    obtain ⟨l, hl⟩ := Program.exists_ofListing_of_assemble hp
    exact ⟨hb.length.trans hlength.symm, hrs, load_image_of_ofListing hl,
      fun console s n k f => Machine.exists_line_of_fault hp console s⟩

/-- An unknown command goes before a wrong operand on an earlier line and a second `BEGIN`; a
program that assembles fails on the line of its `POP`. -/
theorem assemble_keeps_lines_unknown_command :
    let bad := "begin\n push x\r\n foo 1\r\nbegin"
    let f : Fault := .assembly 3 (.cause (.unknownCommand "FOO"))
    let good := "begin\r\n\n pop # nothing there"
    let p : Program := ⟨#[.begin, .blank, .pop], ⟨[⟨.begin, ""⟩, ⟨.blank, ""⟩, ⟨.pop, ""⟩]⟩,
      ⟨[], [], some 0, none⟩, 0⟩
    Program.assemble bad = .error f ∧
      Diagnostic.ofFault "a.asm" bad f =
        "error: unknown command \"FOO\"\n --> a.asm:3\n  |\n   3 |  foo 1\n  |\n" ∧
      Program.assemble good = .ok p ∧ p.length = (lines good.toList).length ∧
      (Machine.results Machine.silent 3 (.start p) ())[2]? =
        some (.error (.runtime 3 (.cause .emptyStack))) ∧
      ∃ line r, (lines good.toList)[2]? = some line ∧ lineRecord line = .ok r := by
  intro bad f good p
  have hbad : FirstError (lineRecords bad) 2 (.unknownCommand "FOO") := by
    refine ⟨by decide +kernel, ?_⟩
    rintro (_ | _ | j) hj
    · exact ⟨⟨.begin, ""⟩, by decide +kernel⟩
    · exact ⟨⟨.push, "x"⟩, by decide +kernel⟩
    · omega
  have hgood : Program.assemble good = .ok p := by decide +kernel
  have hrun : (Machine.results Machine.silent 3 (.start p) ())[2]? =
      some (.error (.runtime 3 (.cause .emptyStack))) := rfl
  obtain ⟨hlength, _, _, hfault⟩ := (assemble_keeps_lines good).2.2.2.2.2.1 p hgood
  obtain ⟨line, r, _, hline, hr, _⟩ := hfault Machine.silent () 3 2 _ hrun
  exact ⟨(assemble_keeps_lines bad).2.2.1 2 _ hbad, by decide +kernel, hgood, hlength, hrun,
    line, r, hline, hr⟩

end StackMachine
