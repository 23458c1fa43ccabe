import StackMachine.Proofs.Grammar
import StackMachine.Proofs.Layout
import StackMachine.Proofs.Lines

/-!
# Programs as source text

A record is written as its mnemonic, a space and its operand. What is written reads back because
no operand that fits has a blank or a comment in it and no mnemonic ends like the definition of a
label.

* `Record.source`, `Listing.source`: the text of a record and of a listing.
* `Record.Fits.operand_isWord`, `Opcode.isWord_mnemonic`: what can be written is written in words.
* `Record.Fits.spelling_source`: a line reads back; `lineRecords_source`: so do all lines.
* **`assemble_source`**: every program can be written as source text.
-/

namespace StackMachine

variable {c : Char} {r : Record} {rs : List Record} {l : Listing}

/-! ## Writing -/

/-- The line of a record. -/
def Record.source (r : Record) : String :=
  r.opcode.mnemonic ++ " " ++ r.operand

/-- The lines of the records. -/
def Listing.source (l : Listing) : String :=
  "\n".intercalate (l.records.map Record.source)

/-! ## Words of a record -/

/-- Blanks and starts of comments are no letters, digits or signs. -/
theorem not_isBlank_of_alphanum_or_sign (h : c.isAlphanum = true ∨ c = '+' ∨ c = '-') :
    isBlank c = false ∧ startsComment c = false := by
  obtain h | rfl | rfl := h
  · have hrange : 65 ≤ c.toNat ∧ c.toNat ≤ 90 ∨ 97 ≤ c.toNat ∧ c.toNat ≤ 122 ∨
        48 ≤ c.toNat ∧ c.toNat ≤ 57 := by
      delta Char.isAlphanum Char.isAlpha Char.isUpper Char.isLower Char.isDigit at h
      simpa [UInt32.le_iff_toNat_le, or_assoc] using h
    exact ⟨isBlank_eq_false (by omega) (by omega), startsComment_eq_false (by omega) (by omega)⟩
  · decide
  · decide

theorem Record.Fits.operand_isWord (h : r.Fits) (hne : r.operand ≠ "") :
    IsWord r.operand.toList :=
  ⟨by simpa using hne, fun _ hc => not_isBlank_of_alphanum_or_sign (h.alphanum_or_sign hc)⟩

namespace Opcode

theorem isWord_mnemonic (o : Opcode) : IsWord o.mnemonic.toList := by
  have hall : ∀ o ∈ all, IsWord o.mnemonic.toList := by decide
  exact hall o (mem_all o)

/-- No mnemonic is taken for the definition of a label. -/
theorem labelDefinition?_mnemonic (o : Opcode) :
    SourceLine.labelDefinition? o.mnemonic.toList = none := by
  have hall : ∀ o ∈ all, SourceLine.labelDefinition? o.mnemonic.toList = none := by decide
  exact hall o (mem_all o)

theorem toUpper_mnemonic (o : Opcode) :
    o.mnemonic.toList.map Char.toUpper = o.mnemonic.toList := by
  have hall : ∀ o ∈ all, o.mnemonic.toList.map Char.toUpper = o.mnemonic.toList := by decide
  exact hall o (mem_all o)

end Opcode

/-! ## Reading back -/

theorem Record.toList_source (r : Record) :
    r.source.toList = r.opcode.mnemonic.toList ++ ' ' :: r.operand.toList := by
  simp [source]

/-- The space behind the mnemonic is not seen if there is no operand. -/
theorem Record.Fits.codeWords_operand (h : r.Fits) : codeWords (' ' :: r.operand.toList) =
    if r.operand = "" then [] else [r.operand.toList] := by
  have hspace : AllBlank [' '] := by decide
  split_ifs with hne
  · rw [hne]
    rfl
  · have hword := h.operand_isWord hne
    have hend : EndsWord [] := by decide
    have heq := codeWords_of_isWord hspace hword hend
    rwa [List.append_nil] at heq

theorem Record.Fits.spelling_source (h : r.Fits) :
    spelling r.source.toList = .ok ⟨r.opcode.mnemonic, r.operand⟩ := by
  have hspace : EndsWord (' ' :: r.operand.toList) := fun c hc => by
    cases hc
    exact Or.inl isBlank_space
  have hnone : AllBlank [] := by decide
  have hwords := codeWords_of_isWord hnone r.opcode.isWord_mnemonic hspace
  rw [spelling, toList_source, ← List.nil_append (_ ++ _), ← List.append_assoc, hwords,
    h.codeWords_operand]
  split_ifs with hne
  · simp [SourceLine.ofWords, r.opcode.labelDefinition?_mnemonic, r.opcode.toUpper_mnemonic, hne]
  · simp [SourceLine.ofWords, r.opcode.labelDefinition?_mnemonic, r.opcode.toUpper_mnemonic]

theorem lineRecord_eq_bind (line : List Char) :
    lineRecord line = (spelling line).bind SourceLine.resolve := by
  rw [lineRecord, parse_ofList]
  cases spelling line <;> rfl

theorem Record.Fits.lineRecord_source (h : r.Fits) : lineRecord r.source.toList = .ok r := by
  rw [lineRecord_eq_bind, h.spelling_source]
  simp only [Except.bind, SourceLine.resolve, Opcode.ofMnemonic?_mnemonic]

theorem Record.Fits.newline_notMem_source (h : r.Fits) : '\n' ∉ r.source.toList := by
  have hoperand : '\n' ∉ r.operand.toList := fun hc => absurd (h.alphanum_or_sign hc) (by decide)
  simp [toList_source, r.opcode.isWord_mnemonic.newline_notMem, hoperand]

theorem map_lineRecord_lines (h : ∀ r ∈ rs, r.Fits) :
    (lines (['\n'].intercalate (rs.map (·.source.toList)))).map lineRecord = rs.map .ok := by
  induction rs with
  | nil => simp
  | cons r rs ih =>
    obtain ⟨hr, hrs⟩ := List.forall_mem_cons.1 h
    have hline := hr.newline_notMem_source
    cases rs with
    | nil =>
      have hne : r.source.toList ≠ [] := by simp [r.toList_source]
      simp [lines_eq_singleton hline hne, hr.lineRecord_source]
    | cons r' rs =>
      -- no line ends with a carriage return, but it would not matter
      have hreturn : lineRecord (dropReturn r.source.toList) = .ok r := by
        rw [lineRecord_eq_bind, spelling_dropReturn, ← lineRecord_eq_bind, hr.lineRecord_source]
      have hrest := ih hrs
      rw [List.map_cons] at hrest
      rw [List.map_cons, List.map_cons, List.intercalate_cons_cons, List.append_assoc,
        List.singleton_append, lines_append_newline hline, List.map_cons, hreturn, hrest,
        List.map_cons, List.map_cons, List.map_cons]

/-- **There is one line for every record.** -/
theorem lineRecords_source (h : ∀ r ∈ l.records, r.Fits) :
    lineRecords l.source = l.records.map .ok := by
  rw [lineRecords, Listing.source, String.toList_intercalate, List.map_map]
  exact map_lineRecord_lines h

/-- **Every program can be written as source text**: the listing comes back, and with it the
program and its image, also the image that the listing was read from. -/
theorem assemble_source {p : Program} (h : Program.ofListing l = .ok p) :
    Listing.ofSource l.source = .ok l ∧ Program.assemble l.source = .ok p ∧
      ∀ image, Listing.ofImage image = .ok l → p.image = image := by
  have hb := boundTo_of_ofListing h
  have hrecords := lineRecords_source fun r => hb.fits
  refine ⟨Listing.ofSource_eq_ok hrecords, ?_, fun image himage => ?_⟩
  · rw [Program.assemble_eq_ofListing hrecords]
    exact h
  · obtain ⟨hbytes, _⟩ := areRecords_iff.1 (ofImage_eq_ok_iff.1 himage)
    rw [Program.image, hb.listing, Listing.image_eq, hbytes]

/-- A blank line, a signed integer, and a label that is written without a colon. -/
theorem assemble_source_labelled :
    let l : Listing := ⟨[⟨.begin, ""⟩, ⟨.blank, ""⟩, ⟨.push, "-5"⟩, ⟨.label, "f"⟩, ⟨.jump, "f"⟩]⟩
    let p : Program := ⟨#[.begin, .blank, .push (-5), .label ⟨0⟩, .jump ⟨0⟩], l,
      ⟨[], [⟨"f", some 3⟩], some 0, none⟩, 0⟩
    Program.ofListing l = .ok p ∧ l.source = "BEGIN \nBLANK \nPUSH -5\nLABEL f\nJMP f" ∧
      Listing.ofImage l.image = .ok l ∧ Program.assemble l.source = .ok p := by
  intro l p
  have h : Program.ofListing l = .ok p := by decide +kernel
  obtain ⟨_, hsource, _⟩ := assemble_source h
  exact ⟨h, by decide +kernel, by decide +kernel, hsource⟩

end StackMachine
