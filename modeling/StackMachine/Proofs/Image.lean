import StackMachine.Proofs.Bound
import StackMachine.Proofs.Runs
import StackMachine.Source

/-!
# Images of programs

An image has no lengths in it: a text ends where the first zero byte stands. What is written reads
back only because no operand that can be bound contains a zero character.

* `ofNat_mem_utf8_iff`: the byte of an ASCII character stands for that character and nothing else;
  so does the zero byte (`terminator_mem_utf8_iff`).
* `Record.bytes`, `Listing.image_eq`: an image is the bytes of its records, one after another.
* **`Listing.ofImage_image`**: a listing without zero characters reads back.
* `Record.Fits.alphanum_or_sign`: operands that fit have none.
* **`load_image`**: a program reads back as it was.
-/

namespace StackMachine

/-! ## Bytes of ASCII characters -/

theorem utf8_eq_flatMap (text : String) :
    utf8 text = text.toList.flatMap String.utf8EncodeChar := by
  have h : text.toUTF8 = text.toList.utf8Encode := String.utf8Encode_toList.symm
  rw [utf8, h, List.utf8Encode, List.toList_data_toByteArray]

theorem ofNat_eq_ofNat_iff {m n : Nat} : UInt8.ofNat m = UInt8.ofNat n ↔ m % 256 = n % 256 := by
  rw [← UInt8.toNat_inj, UInt8.toNat_ofNat', UInt8.toNat_ofNat']

theorem ofNat_mem_utf8EncodeChar_iff {c a : Char} (ha : a.toNat < 128) :
    UInt8.ofNat a.toNat ∈ String.utf8EncodeChar c ↔ c = a := by
  have hc : c = a ↔ c.val.toNat = a.toNat := Char.toNat_inj.symm
  rw [hc]
  unfold String.utf8EncodeChar
  dsimp only
  split_ifs <;> simp only [List.mem_cons, List.not_mem_nil, or_false, ofNat_eq_ofNat_iff] <;>
    omega

/-- **The byte of an ASCII character stands for that character only.** -/
theorem ofNat_mem_utf8_iff {a : Char} (ha : a.toNat < 128) {text : String} :
    UInt8.ofNat a.toNat ∈ utf8 text ↔ a ∈ text.toList := by
  rw [utf8_eq_flatMap, List.mem_flatMap]
  constructor
  · rintro ⟨c, hc, h⟩
    exact (ofNat_mem_utf8EncodeChar_iff ha).1 h ▸ hc
  · intro h
    exact ⟨_, h, (ofNat_mem_utf8EncodeChar_iff ha).2 rfl⟩

theorem terminator_mem_utf8_iff {text : String} : terminator ∈ utf8 text ↔ '\x00' ∈ text.toList :=
  ofNat_mem_utf8_iff (a := '\x00') (by decide)

/-! ## Writing -/

/-- The bytes of a record. -/
def Record.bytes (r : Record) : Bytes :=
  r.opcode.byte :: utf8 r.operand ++ [terminator]

theorem Record.toList_encode (r : Record) (buffer : ByteBuffer) :
    (Encode.encode r buffer).toList = buffer.toList ++ r.bytes := by
  simp [Encode.encode, ByteSink.write, Record.bytes]

theorem Listing.image_eq (l : Listing) : l.image = l.records.flatMap Record.bytes := by
  have key : ∀ (rs : List Record) (buffer : ByteBuffer),
      (rs.foldl (fun sink r => Encode.encode r sink) buffer).toList =
        buffer.toList ++ rs.flatMap Record.bytes := by
    intro rs
    induction rs with
    | nil => simp
    | cons r rs ih =>
      intro buffer
      rw [List.foldl_cons, ih, Record.toList_encode, List.flatMap_cons, List.append_assoc]
  exact key l.records #[]

/-! ## Reading back -/

theorem splitAtTerminator_append {text : Bytes} (h : terminator ∉ text) (rest : Bytes) :
    splitAtTerminator (text ++ terminator :: rest) = some (text, rest) := by
  induction text with
  | nil => rw [List.nil_append, splitAtTerminator, if_pos rfl]
  | cons b text ih =>
    obtain ⟨hb, ht⟩ := List.ne_and_not_mem_of_not_mem_cons h
    rw [List.cons_append, splitAtTerminator, if_neg (Ne.symm hb), ih ht]
    rfl

theorem decode_bytes_append {r : Record} (h : '\x00' ∉ r.operand.toList) (rest : Bytes) :
    (Decode.decode : Decoder Record) (r.bytes ++ rest) = (.ok r, rest) := by
  have hs := splitAtTerminator_append (mt terminator_mem_utf8_iff.1 h) rest
  have hb : r.bytes ++ rest = r.opcode.byte :: (utf8 r.operand ++ terminator :: rest) := by
    simp [Record.bytes]
  rw [hb]
  simp only [Decode.decode, Opcode.ofByte?_byte, hs, ofUtf8?_utf8]

-- offsets only matter where a record cannot be read
theorem recordsFrom_flatMap {rs : List Record} (h : ∀ r ∈ rs, '\x00' ∉ r.operand.toList)
    (offset : Nat) : recordsFrom offset (rs.flatMap Record.bytes) = .ok rs := by
  induction rs generalizing offset with
  | nil => exact recordsFrom_nil offset
  | cons r rs ih =>
    obtain ⟨hr, hrs⟩ := List.forall_mem_cons.1 h
    rw [List.flatMap_cons, recordsFrom_of_ok offset (decode_bytes_append hr _), ih hrs]
    rfl

/-- **A listing without zero characters reads back.** -/
theorem Listing.ofImage_image {l : Listing} (h : ∀ r ∈ l.records, '\x00' ∉ r.operand.toList) :
    Listing.ofImage l.image = .ok l := by
  rw [Listing.ofImage, Listing.image_eq, recordsFrom_flatMap h]
  rfl

/-! ## The characters of an operand -/

theorem Decimal.mem_unsigned_of_mem {c : Char} {text : List Char} (h : c ∈ text) :
    c ∈ unsigned text ∨ c = '+' ∨ c = '-' := by
  unfold unsigned
  split
  · exact (List.mem_cons.1 h).symm.imp_right Or.inl
  · exact (List.mem_cons.1 h).symm.imp_right Or.inr
  · exact Or.inl h

/-- Whatever its shape, an operand that fits is made of letters, digits and signs. -/
theorem Record.Fits.alphanum_or_sign {r : Record} (h : r.Fits) {c : Char}
    (hc : c ∈ r.operand.toList) : c.isAlphanum = true ∨ c = '+' ∨ c = '-' := by
  unfold Record.Fits at h
  split at h
  · rw [h] at hc
    cases hc
  · refine (Decimal.mem_unsigned_of_mem hc).imp_left fun hd => ?_
    simp [Char.isAlphanum, h.isDigit c hd]
  · have hnames : ∀ name ∈ ["ax", "bx", "cx", "dx", "ex"],
        name.toList.all Char.isAlphanum = true := by decide
    exact Or.inl (List.all_eq_true.1 (hnames _ h) c hc)
  · obtain ⟨first, rest, hname, hfirst, hrest⟩ := h
    rw [hname] at hc
    obtain rfl | hc := List.mem_cons.1 hc
    · exact Or.inl (by simp [Char.isAlphanum, hfirst])
    · exact Or.inl (hrest c hc)

theorem Record.Fits.nul_notMem {r : Record} (h : r.Fits) : '\x00' ∉ r.operand.toList :=
  fun hc => absurd (h.alphanum_or_sign hc) (by decide)

/-! ## Programs -/

theorem load_image_of_ofListing {l : Listing} {p : Program} (h : Program.ofListing l = .ok p) :
    Program.load p.image = .ok p := by
  have hb := boundTo_of_ofListing h
  have hn : ∀ r ∈ l.records, '\x00' ∉ r.operand.toList := fun r hr => (hb.fits hr).nul_notMem
  rw [Program.load, Program.image, hb.listing, Listing.ofImage_image hn]
  exact h

theorem Program.exists_ofListing_of_assemble {source : String} {p : Program}
    (h : Program.assemble source = .ok p) : ∃ l, Program.ofListing l = .ok p := by
  unfold Program.assemble at h
  split at h
  · cases h
  · exact ⟨_, h⟩

/-- **A program reads back as it was**, whether it was bound from a listing or assembled from
source text: with its records, its instructions, handle by handle, and its whole symbol table. So
the two run alike on every console. -/
theorem load_image {p : Program}
    (h : (∃ l, Program.ofListing l = .ok p) ∨ ∃ source, Program.assemble source = .ok p) :
    Program.load p.image = .ok p ∧
      ∀ q, Program.load p.image = .ok q → ∀ {σ : Type} (console : Console σ) (s : σ) (n : Nat),
        Machine.results console n (.start q) s = Machine.results console n (.start p) s ∧
          Machine.after console n (.start q) s = Machine.after console n (.start p) s := by
  have hp : Program.load p.image = .ok p := by
    rcases h with ⟨l, h⟩ | ⟨source, h⟩
    · exact load_image_of_ofListing h
    · obtain ⟨l, h⟩ := Program.exists_ofListing_of_assemble h
      exact load_image_of_ofListing h
  refine ⟨hp, fun q hq σ console s n => ?_⟩
  obtain rfl : p = q := Except.ok.inj (hp.symm.trans hq)
  exact ⟨rfl, rfl⟩

/-- A program from source text, with a register, a label and a signed integer. -/
theorem load_image_assembled :
    let source := "begin\n push -5 ; five\n popr ax\n jmp out\nout:\nend"
    let p : Program := ⟨#[.begin, .push (-5), .popRegister ⟨0⟩, .jump ⟨0⟩, .label ⟨0⟩, .finish],
      ⟨[⟨.begin, ""⟩, ⟨.push, "-5"⟩, ⟨.popRegister, "ax"⟩, ⟨.jump, "out"⟩, ⟨.label, "out"⟩,
        ⟨.finish, ""⟩]⟩, ⟨[⟨"ax", 0⟩], [⟨"out", some 4⟩], some 0, some 5⟩, 0⟩
    Program.assemble source = .ok p ∧ Program.load p.image = .ok p := by
  intro source p
  have h : Program.assemble source = .ok p := by decide +kernel
  exact ⟨h, (load_image (Or.inr ⟨source, h⟩)).1⟩

end StackMachine
