import StackMachine.Proofs.Image

/-!
# The grammar of images

An image is a sequence of records, and a record is an opcode byte, a text without zero byte and a
zero byte. The zero byte is also the opcode of `BEGIN`; the grammar is unambiguous nonetheless, as
the first zero byte behind an opcode ends the record.

* `IsRecord`, `AreRecords`: the grammar; `IsRecord.unique`: at most one record stands in front of
  some bytes.
* `Longest`: some bytes cut behind the longest sequence of records; `Stuck`: no record stands in
  front; **`longest_iff_stuck`**.
* `stuckFault`, `recordsFrom_of_stuck`: what is wrong where no record stands in front.
* **`ofImage_reads_longest`**: an image is read as far as it consists of records, and the bytes
  behind them decide the fault and its offset.
* **`ofImage_inverts_image`**: images and listings without zero characters are the same thing.
-/

namespace StackMachine

/-! ## Records and sequences of records -/

/-- The bytes of one record: the byte of an opcode, a text without zero byte, a zero byte. -/
inductive IsRecord : Bytes → Record → Prop
  | intro (o : Opcode) {text : String} : 0 ∉ utf8 text →
      IsRecord (o.byte :: (utf8 text ++ [0])) ⟨o, text⟩

/-- The bytes of records, one record after another. -/
inductive AreRecords : Bytes → List Record → Prop
  | nil : AreRecords [] []
  | cons {front rest : Bytes} {r : Record} {rs : List Record} : IsRecord front r →
      AreRecords rest rs → AreRecords (front ++ rest) (r :: rs)

/-- Bytes that are cut behind the longest sequence of records in front of them. -/
structure Longest (bytes front rest : Bytes) (rs : List Record) : Prop where
  cut : bytes = front ++ rest
  records : AreRecords front rs
  longest : ∀ front' rest' rs', bytes = front' ++ rest' → AreRecords front' rs' →
    front'.length ≤ front.length

/-- No record stands in front of the bytes. -/
def Stuck (bytes : Bytes) : Prop :=
  ∀ front r rest, IsRecord front r → bytes ≠ front ++ rest

variable {bytes front front' rest rest' : Bytes} {r r' : Record} {rs rs' : List Record}
  {b : UInt8} {offset : Nat}

theorem isRecord_iff : IsRecord bytes r ↔ bytes = r.bytes ∧ '\x00' ∉ r.operand.toList := by
  constructor
  · rintro ⟨o, h⟩
    exact ⟨rfl, mt terminator_mem_utf8_iff.2 h⟩
  · rintro ⟨rfl, h⟩
    exact .intro r.opcode (mt terminator_mem_utf8_iff.1 h)

theorem areRecords_iff : AreRecords bytes rs ↔
    bytes = rs.flatMap Record.bytes ∧ ∀ r ∈ rs, '\x00' ∉ r.operand.toList := by
  constructor
  · intro h
    induction h with
    | nil => exact ⟨rfl, nofun⟩
    | cons hr _ ih =>
      obtain ⟨rfl, hn⟩ := isRecord_iff.1 hr
      exact ⟨by rw [ih.1, List.flatMap_cons], List.forall_mem_cons.2 ⟨hn, ih.2⟩⟩
  · rintro ⟨rfl, h⟩
    induction rs with
    | nil => exact .nil
    | cons r rs ih =>
      obtain ⟨hr, hrs⟩ := List.forall_mem_cons.1 h
      exact .cons (isRecord_iff.2 ⟨rfl, hr⟩) (ih hrs)

theorem IsRecord.decode (h : IsRecord front r) (rest : Bytes) :
    (Decode.decode : Decoder Record) (front ++ rest) = (.ok r, rest) := by
  obtain ⟨rfl, hn⟩ := isRecord_iff.1 h
  exact decode_bytes_append hn rest

theorem IsRecord.ne_nil (h : IsRecord front r) : front ≠ [] := by
  cases h
  exact List.cons_ne_nil _ _

/-- **At most one record stands in front of some bytes.** -/
theorem IsRecord.unique (h : IsRecord front r) (h' : IsRecord front' r')
    (e : front ++ rest = front' ++ rest') : r = r' ∧ front = front' ∧ rest = rest' := by
  -- reading yields both of them
  have hd := h.decode rest
  rw [e, h'.decode rest'] at hd
  cases hd
  exact ⟨rfl, List.append_cancel_right e, rfl⟩

/-! ## The longest sequence of records -/

theorem exists_of_not_stuck (h : ¬ Stuck bytes) :
    ∃ front r rest, IsRecord front r ∧ bytes = front ++ rest := by
  by_contra hn
  exact h fun front r rest hr e => hn ⟨front, r, rest, hr, e⟩

theorem exists_areRecords (bytes : Bytes) :
    ∃ front rest rs, bytes = front ++ rest ∧ AreRecords front rs ∧ Stuck rest := by
  by_cases h : Stuck bytes
  · exact ⟨[], bytes, [], rfl, .nil, h⟩
  · obtain ⟨first, r, behind, hr, rfl⟩ := exists_of_not_stuck h
    have hlt : behind.length < (first ++ behind).length := by
      have := List.length_pos_iff.2 hr.ne_nil
      rw [List.length_append]
      omega
    obtain ⟨front, rest, rs, rfl, hrs, hs⟩ := exists_areRecords behind
    exact ⟨first ++ front, rest, r :: rs, (List.append_assoc ..).symm, .cons hr hrs, hs⟩
termination_by bytes.length

theorem AreRecords.length_le (h : AreRecords front rs) (hs : Stuck rest)
    (h' : AreRecords front' rs') (e : front ++ rest = front' ++ rest') :
    front'.length ≤ front.length := by
  -- record by record: the others cannot go on where these are stuck
  induction h' generalizing front rs with
  | nil => exact Nat.zero_le _
  | @cons first' others' r' rs' hr' _ ih =>
    rw [List.append_assoc] at e
    cases h with
    | nil => exact absurd e (hs _ _ _ hr')
    | @cons first others r rs hr hrs =>
      rw [List.append_assoc] at e
      obtain ⟨rfl, rfl, he⟩ := hr.unique hr' e
      rw [List.length_append, List.length_append]
      exact Nat.add_le_add_left (ih hrs he) _

theorem AreRecords.append_record (h : AreRecords front rs) (hr : IsRecord bytes r) :
    AreRecords (front ++ bytes) (rs ++ [r]) := by
  induction h with
  | nil =>
    rw [List.nil_append, List.nil_append, ← List.append_nil bytes]
    exact .cons hr .nil
  | cons hr' _ ih =>
    rw [List.append_assoc]
    exact .cons hr' ih

/-- **A sequence of records is the longest where the bytes behind it are stuck.** -/
theorem longest_iff_stuck (h : AreRecords front rs) :
    Longest (front ++ rest) front rest rs ↔ Stuck rest := by
  constructor
  · rintro hl first r behind hr rfl
    have hlen := hl.longest (front ++ first) behind _ (List.append_assoc ..).symm
      (h.append_record hr)
    have := List.length_pos_iff.2 hr.ne_nil
    rw [List.length_append] at hlen
    omega
  · intro hs
    exact ⟨rfl, h, fun _ _ _ e h' => h.length_le hs h' e⟩

/-! ## Reading -/

theorem recordsFrom_append (h : AreRecords front rs) (offset : Nat) (rest : Bytes) :
    recordsFrom offset (front ++ rest) =
      (recordsFrom (offset + front.length) rest).map (rs ++ ·) := by
  induction h generalizing offset with
  | nil =>
    rw [List.nil_append, List.length_nil, Nat.add_zero]
    cases recordsFrom offset rest <;> rfl
  | @cons first others r rs hr _ ih =>
    have hlen : (first ++ (others ++ rest)).length - (others ++ rest).length = first.length := by
      rw [List.length_append, Nat.add_sub_cancel]
    rw [List.append_assoc, recordsFrom_of_ok offset (hr.decode _), ih, hlen, List.length_append,
      Nat.add_assoc]
    cases recordsFrom (offset + (first.length + others.length)) rest <;> rfl

theorem splitAtTerminator_eq_none (h : terminator ∉ bytes) : splitAtTerminator bytes = none := by
  induction bytes with
  | nil => rfl
  | cons b bytes ih =>
    obtain ⟨hb, ht⟩ := List.ne_and_not_mem_of_not_mem_cons h
    rw [splitAtTerminator, if_neg (Ne.symm hb), ih ht]
    rfl

/-- What is wrong with bytes that no record stands in front of: the first byte is no opcode, the
record has no end, or its text is none. -/
def stuckFault (offset : Nat) (b : UInt8) (rest : Bytes) : Cause :=
  if ∀ o ∈ Opcode.all, o.byte ≠ b then .invalidOpcode b offset
  else if 0 ∉ rest then .undecodable offset .unexpectedEnd
  else .undecodable offset .invalidUtf8

theorem Stuck.ofUtf8?_eq_none {o : Opcode} {text : Bytes}
    (h : Stuck (o.byte :: (text ++ 0 :: rest))) (ht : 0 ∉ text) : ofUtf8? text = none := by
  rw [Option.eq_none_iff_forall_ne_some]
  intro s e
  obtain rfl := ofUtf8?_eq_some_iff.1 e
  exact h _ _ rest (.intro o ht) (by simp)

theorem recordsFrom_of_stuck (h : Stuck (b :: rest)) (offset : Nat) :
    recordsFrom offset (b :: rest) = .error (stuckFault offset b rest) := by
  have hne := List.cons_ne_nil b rest
  unfold stuckFault
  split_ifs with ho hz
  · have hb : Opcode.ofByte? b = none := List.find?_eq_none.2 fun o hm => by simpa using ho o hm
    have hd : (Decode.decode : Decoder Record) (b :: rest) = (.error (.unknownOpcode b), rest) := by
      simp only [Decode.decode, hb]
    exact recordsFrom_of_error offset hne hd
  · push Not at ho
    obtain ⟨o, _, rfl⟩ := ho
    obtain ⟨text, behind, rfl, ht⟩ := List.eq_append_cons_of_mem hz
    have hsplit : splitAtTerminator (text ++ 0 :: behind) = some (text, behind) :=
      splitAtTerminator_append ht behind
    have hd : (Decode.decode : Decoder Record) (o.byte :: (text ++ 0 :: behind)) =
        (.error .invalidUtf8, behind) := by
      simp only [Decode.decode, Opcode.ofByte?_byte, hsplit, h.ofUtf8?_eq_none ht]
    exact recordsFrom_of_error offset hne hd
  · push Not at ho
    obtain ⟨o, _, rfl⟩ := ho
    have hd : (Decode.decode : Decoder Record) (o.byte :: rest) =
        (.error .unexpectedEnd, rest) := by
      simp only [Decode.decode, Opcode.ofByte?_byte, splitAtTerminator_eq_none hz]
    exact recordsFrom_of_error offset hne hd

/-! ## Whole images -/

theorem ofImage_of_areRecords (h : AreRecords bytes rs) : Listing.ofImage bytes = .ok ⟨rs⟩ := by
  have hr := recordsFrom_append h 0 []
  rw [List.append_nil, recordsFrom_nil] at hr
  rw [Listing.ofImage, hr]
  exact congrArg (Except.ok ∘ Listing.mk) (List.append_nil rs)

theorem ofImage_of_stuck (h : AreRecords front rs) (hs : Stuck (b :: rest)) :
    Listing.ofImage (front ++ b :: rest) = .error (stuckFault front.length b rest) := by
  rw [Listing.ofImage, recordsFrom_append h, Nat.zero_add, recordsFrom_of_stuck hs]
  rfl

theorem ofImage_eq_ok_iff {l : Listing} :
    Listing.ofImage bytes = .ok l ↔ AreRecords bytes l.records := by
  refine ⟨fun h => ?_, ofImage_of_areRecords⟩
  obtain ⟨front, _ | ⟨b, rest⟩, rs, rfl, hrs, hs⟩ := exists_areRecords bytes
  · rw [List.append_nil] at h ⊢
    rw [ofImage_of_areRecords hrs] at h
    cases h
    exact hrs
  · rw [ofImage_of_stuck hrs hs] at h
    cases h

/-- **An image is read as far as it consists of records.** It is accepted if that is all of it, and
otherwise the bytes behind the last record decide the fault, whose offset is theirs. -/
theorem ofImage_reads_longest (image : Bytes) :
    (∃ front rest rs, Longest image front rest rs) ∧
    ∀ front rest rs, Longest image front rest rs →
      ((∃ l, Listing.ofImage image = .ok l) ↔ rest = []) ∧
      (rest = [] → Listing.ofImage image = .ok ⟨rs⟩) ∧
      (∀ b behind, rest = b :: behind →
        Listing.ofImage image = .error (stuckFault front.length b behind)) ∧
      ∀ offset reason, Listing.ofImage image = .error (.undecodable offset reason) →
        reason = .unexpectedEnd ∨ reason = .invalidUtf8 := by
  constructor
  · obtain ⟨front, rest, rs, rfl, hrs, hs⟩ := exists_areRecords image
    exact ⟨front, rest, rs, (longest_iff_stuck hrs).2 hs⟩
  · rintro front rest rs hl
    obtain ⟨rfl, hrs, _⟩ := id hl
    have hs := (longest_iff_stuck hrs).1 hl
    cases rest with
    | nil =>
      rw [List.append_nil, ofImage_of_areRecords hrs]
      exact ⟨⟨fun _ => rfl, fun _ => ⟨_, rfl⟩⟩, fun _ => rfl, nofun, nofun⟩
    | cons b behind =>
      rw [ofImage_of_stuck hrs hs]
      refine ⟨⟨nofun, nofun⟩, nofun, ?_, ?_⟩
      · rintro _ _ ⟨⟩
        rfl
      · intro offset reason h
        unfold stuckFault at h
        split_ifs at h <;> cases h <;> simp

/-- A zero byte that ends one record, one that is the opcode of the next, and a text without end. -/
theorem ofImage_reads_longest_unended :
    let image : Bytes := [0x02, 0x37, 0x00, 0x00, 0x00, 0x31, 0x6f, 0x6e]
    Longest image [0x02, 0x37, 0x00, 0x00, 0x00] [0x31, 0x6f, 0x6e] [⟨.push, "7"⟩, ⟨.begin, ""⟩] ∧
      Listing.ofImage image = .error (.undecodable 5 .unexpectedEnd) := by
  intro image
  have hrs : AreRecords [0x02, 0x37, 0x00, 0x00, 0x00] [⟨.push, "7"⟩, ⟨.begin, ""⟩] :=
    areRecords_iff.2 ⟨by decide, by decide⟩
  have hs : Stuck [0x31, 0x6f, 0x6e] := by
    rintro front r rest ⟨o, _⟩ e
    have hz : (0 : UInt8) ∈ [(0x31 : UInt8), 0x6f, 0x6e] := by
      rw [e]
      simp
    exact absurd hz (by decide)
  have hl : Longest image _ _ _ := (longest_iff_stuck hrs).2 hs
  exact ⟨hl, ((ofImage_reads_longest image).2 _ _ _ hl).2.2.1 0x31 [0x6f, 0x6e] rfl⟩

/-- **Reading and writing images are inverse.** What was read is written back byte for byte, and a
listing is read back exactly when no operand contains a zero character. -/
theorem ofImage_inverts_image :
    (∀ image l, Listing.ofImage image = .ok l → l.image = image) ∧
    (∀ image image' l, Listing.ofImage image = .ok l → Listing.ofImage image' = .ok l →
      image = image') ∧
    ∀ l : Listing, Listing.ofImage l.image = .ok l ↔ ∀ r ∈ l.records, '\x00' ∉ r.operand.toList := by
  have hwrite : ∀ image l, Listing.ofImage image = .ok l → l.image = image := by
    intro image l h
    rw [Listing.image_eq]
    exact (areRecords_iff.1 (ofImage_eq_ok_iff.1 h)).1.symm
  refine ⟨hwrite, fun image image' l h h' => ?_, fun l => ⟨fun h => ?_, Listing.ofImage_image⟩⟩
  · rw [← hwrite image l h, hwrite image' l h']
  · exact (areRecords_iff.1 (ofImage_eq_ok_iff.1 h)).2

/-- A text of two bytes is read back; with a zero character behind it, another listing is read. -/
theorem ofImage_inverts_image_nul :
    let l : Listing := ⟨[⟨.call, "é"⟩]⟩
    let l' : Listing := ⟨[⟨.call, "é\x00\x01"⟩]⟩
    Listing.ofImage l.image = .ok l ∧ Listing.ofImage l'.image ≠ .ok l' ∧
      Listing.ofImage [0x38, 0xc3, 0xa9, 0x00] = .ok l ∧ l.image = [0x38, 0xc3, 0xa9, 0x00] := by
  intro l l'
  obtain ⟨hwrite, _, hread⟩ := ofImage_inverts_image
  have h : Listing.ofImage [0x38, 0xc3, 0xa9, 0x00] = .ok l :=
    ofImage_of_areRecords (areRecords_iff.2 ⟨by decide, by decide⟩)
  refine ⟨(hread l).2 (by decide), ?_, h, hwrite _ l h⟩
  rw [Ne, hread l']
  decide

end StackMachine
