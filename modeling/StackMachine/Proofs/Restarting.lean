import StackMachine.Proofs.Safety

/-!
# Starting again

A machine holds the program that it runs, and with it the registers. Started again on that program,
it begins on the same line with empty stacks, but its registers are as the run left them.

* `SymbolTable.forall_registerValue?_iff`: all values, by name.
* `Program.SameCode.eq_iff`: programs with the same code are the same if their registers are.
* **`restart_eq_start_iff`**: when a second start is like the first.
* `restart_ne_start`: a run that leaves a value behind.
-/

namespace StackMachine

/-! ## Values of registers -/

namespace SymbolTable

variable {t t' : SymbolTable}

theorem forall_registerValue?_iff (hw : t.WellFormed) {P : Int64 → Prop} :
    (∀ name value, t.registerValue? name = some value → P value) ↔
      ∀ e ∈ t.registers, P e.value := by
  constructor
  · intro h e he
    exact h e.name e.value (registerValue?_of_mem hw he)
  · intro h name value hvalue
    obtain ⟨e, he, rfl⟩ := Option.map_eq_some_iff.1 hvalue
    exact h e (List.mem_of_find?_eq_some he)

theorem registers_eq_of_zero (hnames : t.usedRegisters = t'.usedRegisters)
    (h : ∀ e ∈ t.registers, e.value = 0) (h' : ∀ e ∈ t'.registers, e.value = 0) :
    t.registers = t'.registers := by
  have key : ∀ {t : SymbolTable}, (∀ e ∈ t.registers, e.value = 0) →
      t.registers = t.usedRegisters.map fun name => ⟨name, 0⟩ := by
    intro t h
    rw [usedRegisters, List.map_map]
    refine (List.map_id t.registers).symm.trans (List.map_congr_left fun e he => ?_)
    rw [Function.comp_apply, ← h e he]
    rfl
  rw [key h, key h', hnames]

end SymbolTable

theorem Program.SameCode.eq_iff {p q : Program} (h : p.SameCode q) :
    q = p ↔ q.symbols.registers = p.symbols.registers := by
  refine ⟨fun he => by rw [he], fun hregisters => ?_⟩
  obtain ⟨hinstructions, hlisting, hentry, -, hlabels, hbegin, hfinish⟩ := h
  obtain ⟨instructions, listing, ⟨registers, labels, begin, finish⟩, entry⟩ := p
  obtain ⟨instructions', listing', ⟨registers', labels', begin', finish'⟩, entry'⟩ := q
  simp only at hinstructions hlisting hentry hlabels hbegin hfinish hregisters
  subst hinstructions hlisting hentry hlabels hbegin hfinish hregisters
  rfl

namespace Machine

theorem start_inj {p q : Program} : start q = start p ↔ q = p :=
  ⟨congrArg program, congrArg start⟩

/-- **Starting again keeps the registers.** A machine that is started on the program of a machine
behind any number of steps has its line, its stacks and its counter as at the first start, and its
program has the same code; but every register reads what the run left in it. So it is as at the
first start, and then does the same on every console, exactly if the run has left no value other
than `0`. The listing of the program is unchanged and, bound anew, always gives the program as it
was. -/
theorem restart_eq_start_iff {l : Listing} {p : Program} (h : Program.ofListing l = .ok p)
    {σ : Type} (console : Console σ) (s : σ) (n : Nat) :
    let m := (after console n (start p) s).1
    start m.program = { start p with program := m.program } ∧ p.SameCode m.program ∧
      (∀ name, (start m.program).registerValue? name = m.registerValue? name) ∧
      (start m.program = start p ↔
        ∀ name value, m.registerValue? name = some value → value = 0) ∧
      Program.ofListing m.program.listing = .ok p := by
  intro m
  have hb := boundTo_of_ofListing h
  have hcode : p.SameCode m.program := (inside_after console hb n).code
  have hw : m.program.symbols.WellFormed := hcode.wellFormed hb.table.toWellFormed
  have hzero := SymbolTable.forall_registerValue?_iff hw (P := (· = 0))
  have hstart : start m.program = { start p with program := m.program } := by
    rw [start, start, hcode.entry]
  refine ⟨hstart, hcode, fun name => rfl, ?_, ?_⟩
  · rw [start_inj, hcode.eq_iff]
    refine ⟨fun hregisters => hzero.2 (hregisters ▸ hb.table.value), fun hvalues => ?_⟩
    exact SymbolTable.registers_eq_of_zero hcode.usedRegisters.symm (hzero.1 hvalues)
      hb.table.value
  · rw [← hcode.listing, hb.listing]
    exact h

theorem restart_eq_start_iff_set_back :
    let l : Listing := ⟨[⟨.begin, ""⟩, ⟨.push, "5"⟩, ⟨.popRegister, "bx"⟩, ⟨.push, "0"⟩,
      ⟨.popRegister, "bx"⟩]⟩
    let p : Program := ⟨#[.begin, .push 5, .popRegister ⟨0⟩, .push 0, .popRegister ⟨0⟩], l,
      ⟨[⟨"bx", 0⟩], [], some 0, none⟩, 0⟩
    let m n := (after silent n (start p) ()).1
    Program.ofListing l = .ok p ∧
      (m 3).registerValue? "bx" = some 5 ∧ start (m 3).program ≠ start p ∧
      (start (m 3).program).registerValue? "bx" = some 5 ∧
      start (m 5).program = start p ∧ (m 5).registerValue? "bx" = some 0 ∧
      Program.ofListing (m 5).program.listing = .ok p := by
  intro l p m
  have h : Program.ofListing l = .ok p := by decide +kernel
  have hset : (m 3).registerValue? "bx" = some 5 := by decide +kernel
  have hback : start (m 5).program = start p := by decide +kernel
  obtain ⟨-, -, hkeeps, hiff, -⟩ := restart_eq_start_iff h silent () 3
  obtain ⟨-, -, hreads, -, hagain⟩ := restart_eq_start_iff h silent () 5
  have hne : start (m 3).program ≠ start p := fun he =>
    absurd (hiff.1 he "bx" 5 hset) (by decide)
  exact ⟨h, hset, hne, (hkeeps "bx").trans hset, hback,
    (hreads "bx").symm.trans (by rw [hback]; decide +kernel), hagain⟩

/-- A second start is not always like the first: a program that counts in a register goes on
counting, and not from `0`. -/
theorem restart_ne_start :
    let l : Listing := ⟨[⟨.begin, ""⟩, ⟨.pushRegister, "ax"⟩, ⟨.push, "1"⟩, ⟨.arithmetic .add, ""⟩,
      ⟨.popRegister, "ax"⟩, ⟨.finish, ""⟩]⟩
    let p : Program := ⟨#[.begin, .pushRegister ⟨0⟩, .push 1, .arithmetic .add, .popRegister ⟨0⟩,
      .finish], l, ⟨[⟨"ax", 0⟩], [], some 0, some 5⟩, 0⟩
    let m := (after silent 6 (start p) ()).1
    Program.ofListing l = .ok p ∧ m.halted = true ∧ start m.program ≠ start p ∧
      (start p).registerValue? "ax" = some 0 ∧ (start m.program).registerValue? "ax" = some 1 ∧
      m.registerValue? "ax" = some 1 ∧
      (after silent 6 (start m.program) ()).1.registerValue? "ax" = some 2 := by
  decide +kernel

end Machine

end StackMachine
