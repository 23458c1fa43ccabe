import StackMachine.Proofs.FieldCodecs
import StackMachine.Proofs.Grammar

/-!
# What reading a value takes

Values stand in an input without lengths in front, so that reading goes on wherever the value before
was left. Reading takes exactly the bytes that are written for a value; where it fails, what is left
depends on the failure.

* `ByteFails`, `OpcodeFails`, `TextFails`, `RecordFails`: the ways to fail, as judgments on the
  input, the failure and what is left.
* `Decided`: values and ways to fail are all there is, and reading follows them;
  **`Decided.consumesExactly`**: what this means for both directions and for one value alone.
* **`values_consumed_exactly`**: bytes, opcodes, texts without zero characters and records of them.
-/

namespace StackMachine

/-! ## Ways to fail -/

/-- There is no byte. -/
inductive ByteFails : Bytes → DecodeFailure → Bytes → Prop
  | missing : ByteFails [] .unexpectedEnd []

/-- There is no byte, or it belongs to no opcode. -/
inductive OpcodeFails : Bytes → DecodeFailure → Bytes → Prop
  | missing : OpcodeFails [] .unexpectedEnd []
  | unknown {b : UInt8} {rest : Bytes} : (∀ o : Opcode, o.byte ≠ b) →
      OpcodeFails (b :: rest) (.unknownOpcode b) rest

/-- The text does not end, or it is not UTF-8. -/
inductive TextFails : Bytes → DecodeFailure → Bytes → Prop
  | unended {input : Bytes} : 0 ∉ input → TextFails input .unexpectedEnd input
  | malformed {text rest : Bytes} : 0 ∉ text → (∀ s, utf8 s ≠ text) →
      TextFails (text ++ 0 :: rest) .invalidUtf8 rest

/-- The opcode fails, or there is one and the operand fails. -/
inductive RecordFails : Bytes → DecodeFailure → Bytes → Prop
  | opcode {input rest : Bytes} {failure : DecodeFailure} : OpcodeFails input failure rest →
      RecordFails input failure rest
  | operand (o : Opcode) {input rest : Bytes} {failure : DecodeFailure} :
      TextFails input failure rest → RecordFails (o.byte :: input) failure rest

/-- A text that does not end itself. -/
def NulFree (text : String) : Prop :=
  '\x00' ∉ text.toList

instance (text : String) : Decidable (NulFree text) :=
  inferInstanceAs (Decidable ('\x00' ∉ text.toList))

/-! ## Deciding judgments -/

section

variable (α : Type) [Encode α] [Decode α] (Clean : α → Prop)
  (Fails : Bytes → DecodeFailure → Bytes → Prop)

/-- Every input starts with a clean value or fails, and reading says which. -/
structure Decided : Prop where
  total : ∀ input, (∃ v rest, Clean v ∧ input = Encode.toBytes v ++ rest) ∨
    ∃ failure rest, Fails input failure rest
  ok : ∀ v rest, Clean v → (Decode.decode : Decoder α) (Encode.toBytes v ++ rest) = (.ok v, rest)
  error : ∀ input failure rest, Fails input failure rest →
    (Decode.decode : Decoder α) input = (.error failure, rest)
  suffix : ∀ input failure rest, Fails input failure rest → rest <:+ input
  /-- Bytes behind a value are no failure to read it. -/
  untrailing : ∀ input n rest, ¬ Fails input (.trailingBytes n) rest

/-- Reading takes what is written for a clean value, and leaves what the failure says otherwise. -/
structure ConsumesExactly : Prop where
  decode_ok_iff : ∀ input v rest, (Decode.decode : Decoder α) input = (.ok v, rest) ↔
    Clean v ∧ input = Encode.toBytes v ++ rest
  decode_error_iff : ∀ input failure rest,
    (Decode.decode : Decoder α) input = (.error failure, rest) ↔ Fails input failure rest
  suffix : ∀ input outcome rest, (Decode.decode : Decoder α) input = (outcome, rest) →
    rest <:+ input
  fromBytes_ok_iff : ∀ data v, Decode.fromBytes data = .ok v ↔ Clean v ∧ data = Encode.toBytes v
  fromBytes_trailing_iff : ∀ data n,
    (Decode.fromBytes data : Except DecodeFailure α) = .error (.trailingBytes n) ↔
      0 < n ∧ ∃ v rest, (Decode.decode : Decoder α) data = (.ok v, rest) ∧ rest.length = n

end

section

variable {α : Type} [Decode α] {data input rest : Bytes} {v : α} {failure : DecodeFailure}

theorem fromBytes_of_error (h : (Decode.decode : Decoder α) data = (.error failure, rest)) :
    (Decode.fromBytes data : Except DecodeFailure α) = .error failure := by
  rw [Decode.fromBytes, h]

theorem fromBytes_of_ok (h : (Decode.decode : Decoder α) data = (.ok v, rest)) :
    Decode.fromBytes data = if rest = [] then .ok v else .error (.trailingBytes rest.length) := by
  rw [Decode.fromBytes, h]
  cases rest with
  | nil => rfl
  | cons b rest => rw [if_neg (List.cons_ne_nil b rest)]

variable [Encode α] {Clean : α → Prop} {Fails : Bytes → DecodeFailure → Bytes → Prop}

namespace Decided

theorem decode_ok_iff (h : Decided α Clean Fails) :
    (Decode.decode : Decoder α) input = (.ok v, rest) ↔
      Clean v ∧ input = Encode.toBytes v ++ rest := by
  constructor
  · intro hread
    -- reading yields what the input starts with, and no failure
    obtain ⟨w, behind, hw, rfl⟩ | ⟨failure, behind, hf⟩ := h.total input
    · rw [h.ok w behind hw] at hread
      cases hread
      exact ⟨hw, rfl⟩
    · rw [h.error _ _ _ hf] at hread
      cases hread
  · rintro ⟨hv, rfl⟩
    exact h.ok v rest hv

theorem decode_error_iff (h : Decided α Clean Fails) :
    (Decode.decode : Decoder α) input = (.error failure, rest) ↔ Fails input failure rest := by
  refine ⟨fun hread => ?_, h.error _ _ _⟩
  obtain ⟨w, behind, hw, rfl⟩ | ⟨failure', behind, hf⟩ := h.total input
  · rw [h.ok w behind hw] at hread
    cases hread
  · rw [h.error _ _ _ hf] at hread
    cases hread
    exact hf

theorem suffix_of_decode (h : Decided α Clean Fails) {outcome : Except DecodeFailure α}
    (hread : (Decode.decode : Decoder α) input = (outcome, rest)) : rest <:+ input := by
  cases outcome with
  | error failure => exact h.suffix _ _ _ (h.decode_error_iff.1 hread)
  | ok v =>
    obtain ⟨-, rfl⟩ := h.decode_ok_iff.1 hread
    exact List.suffix_append _ _

theorem fromBytes_ok_iff (h : Decided α Clean Fails) :
    Decode.fromBytes data = .ok v ↔ Clean v ∧ data = Encode.toBytes v := by
  constructor
  · intro hread
    rcases hd : (Decode.decode : Decoder α) data with ⟨failure | w, rest⟩
    · rw [fromBytes_of_error hd] at hread
      cases hread
    · rw [fromBytes_of_ok hd] at hread
      split_ifs at hread with hrest
      cases hread
      rw [h.decode_ok_iff, hrest, List.append_nil] at hd
      exact hd
  · rintro ⟨hv, rfl⟩
    have hd := h.ok v [] hv
    rw [List.append_nil] at hd
    rw [fromBytes_of_ok hd, if_pos rfl]

theorem fromBytes_trailing_iff (h : Decided α Clean Fails) {n : Nat} :
    (Decode.fromBytes data : Except DecodeFailure α) = .error (.trailingBytes n) ↔
      0 < n ∧ ∃ v rest, (Decode.decode : Decoder α) data = (.ok v, rest) ∧ rest.length = n := by
  constructor
  · intro hread
    rcases hd : (Decode.decode : Decoder α) data with ⟨failure | v, rest⟩
    · rw [fromBytes_of_error hd] at hread
      cases hread
      exact absurd (h.decode_error_iff.1 hd) (h.untrailing _ _ _)
    · rw [fromBytes_of_ok hd] at hread
      split_ifs at hread with hrest
      cases hread
      exact ⟨List.length_pos_iff.2 hrest, v, rest, rfl, rfl⟩
  · rintro ⟨hn, v, rest, hd, rfl⟩
    rw [fromBytes_of_ok hd, if_neg (List.length_pos_iff.1 hn)]

/-- **What is decided is consumed exactly.** -/
theorem consumesExactly (h : Decided α Clean Fails) : ConsumesExactly α Clean Fails where
  decode_ok_iff _ _ _ := h.decode_ok_iff
  decode_error_iff _ _ _ := h.decode_error_iff
  suffix _ _ _ := h.suffix_of_decode
  fromBytes_ok_iff _ _ := h.fromBytes_ok_iff
  fromBytes_trailing_iff _ _ := h.fromBytes_trailing_iff

end Decided

end

/-! ## Bytes and opcodes -/

theorem decided_byte : Decided UInt8 (fun _ => True) ByteFails where
  total
    | [] => Or.inr ⟨_, _, .missing⟩
    | b :: rest => Or.inl ⟨b, rest, trivial, rfl⟩
  ok v rest _ := Derive.readsBack_byte v rest
  error _ _ _ h := by cases h; rfl
  suffix _ _ _ h := by cases h; exact List.suffix_refl _
  untrailing := nofun

theorem decided_opcode : Decided Opcode (fun _ => True) OpcodeFails where
  total
    | [] => Or.inr ⟨_, _, .missing⟩
    | b :: rest => by
      by_cases h : ∃ o : Opcode, o.byte = b
      · obtain ⟨o, rfl⟩ := h
        exact Or.inl ⟨o, rest, trivial, rfl⟩
      · exact Or.inr ⟨_, _, .unknown (not_exists.1 h)⟩
  ok v rest _ := Derive.readsBack_opcode v rest
  error input failure rest h := by
    cases h with
    | missing => rfl
    | @unknown b _ hb =>
      have hnone : Opcode.ofByte? b = none :=
        Option.eq_none_iff_forall_ne_some.2 fun o ho => hb o (Opcode.ofByte?_eq_some_iff.1 ho)
      simp only [Decode.decode, hnone]
  suffix input failure rest h := by
    cases h with
    | missing => exact List.suffix_refl _
    | unknown => exact List.suffix_cons _ _
  untrailing := nofun

/-! ## Texts -/

theorem toBytes_text (text : String) : Encode.toBytes text = utf8 text ++ [0] := by
  simp [Encode.toBytes, Encode.encode, ByteSink.write, terminator]

theorem toBytes_text_append (text : String) (rest : Bytes) :
    Encode.toBytes text ++ rest = utf8 text ++ 0 :: rest := by
  rw [toBytes_text, List.append_assoc, List.singleton_append]

theorem decode_text_append {text : Bytes} (h : 0 ∉ text) (rest : Bytes) :
    (Decode.decode : Decoder String) (text ++ 0 :: rest) =
      ((ofUtf8? text).elim (.error .invalidUtf8) .ok, rest) := by
  have hsplit : splitAtTerminator (text ++ 0 :: rest) = some (text, rest) :=
    splitAtTerminator_append h rest
  simp only [Decode.decode, hsplit]
  cases ofUtf8? text <;> rfl

theorem decided_text : Decided String NulFree TextFails where
  total input := by
    by_cases hend : 0 ∈ input
    · obtain ⟨text, rest, rfl, htext⟩ := List.eq_append_cons_of_mem hend
      by_cases h : ∃ s, utf8 s = text
      · obtain ⟨s, rfl⟩ := h
        exact Or.inl ⟨s, rest, mt terminator_mem_utf8_iff.2 htext, (toBytes_text_append s rest).symm⟩
      · exact Or.inr ⟨_, _, .malformed htext (not_exists.1 h)⟩
    · exact Or.inr ⟨_, _, .unended hend⟩
  ok s rest hs := by
    rw [toBytes_text_append, decode_text_append (mt terminator_mem_utf8_iff.1 hs), ofUtf8?_utf8,
      Option.elim_some]
  error input failure rest h := by
    cases h with
    | unended hend => simp only [Decode.decode, splitAtTerminator_eq_none hend]
    | @malformed text _ htext hs =>
      have hnone : ofUtf8? text = none :=
        Option.eq_none_iff_forall_ne_some.2 fun s h => hs s (ofUtf8?_eq_some_iff.1 h)
      rw [decode_text_append htext, hnone, Option.elim_none]
  suffix input failure rest h := by
    cases h with
    | unended => exact List.suffix_refl _
    | malformed => exact (List.suffix_cons _ _).trans (List.suffix_append _ _)
  untrailing := nofun

/-! ## Records -/

theorem toBytes_record_append (r : Record) (rest : Bytes) :
    Encode.toBytes r ++ rest = r.opcode.byte :: (Encode.toBytes r.operand ++ rest) := by
  have hbytes : Encode.toBytes r = r.bytes := r.toList_encode #[]
  rw [hbytes, toBytes_text, Record.bytes]
  rfl

/-- Behind an opcode, the operand decides. -/
theorem decode_record_cons (o : Opcode) (input : Bytes) :
    (Decode.decode : Decoder Record) (o.byte :: input) =
      ((Decode.decode : Decoder String) input).map (Except.map (Record.mk o)) id := by
  have ho : (Decode.decode : Decoder Opcode) (o.byte :: input) = (.ok o, input) :=
    decided_opcode.ok o input trivial
  unfold instDecodeRecord
  dsimp only
  rw [ho]
  dsimp only
  rcases (Decode.decode : Decoder String) input with ⟨failure | operand, rest⟩ <;> rfl

theorem decided_record : Decided Record (fun r => NulFree r.operand) RecordFails where
  total input := by
    obtain ⟨o, behind, -, rfl⟩ | ⟨failure, rest, hf⟩ := decided_opcode.total input
    · obtain ⟨s, rest, hs, rfl⟩ | ⟨failure, rest, hf⟩ := decided_text.total behind
      · exact Or.inl ⟨⟨o, s⟩, rest, hs, (toBytes_record_append ⟨o, s⟩ rest).symm⟩
      · exact Or.inr ⟨failure, rest, .operand o hf⟩
    · exact Or.inr ⟨failure, rest, .opcode hf⟩
  ok r rest hr := by
    rw [toBytes_record_append, decode_record_cons, decided_text.ok _ _ hr]
    rfl
  error input failure rest h := by
    cases h with
    | opcode hf =>
      unfold instDecodeRecord
      dsimp only
      rw [decided_opcode.error _ _ _ hf]
    | operand o hf =>
      rw [decode_record_cons, decided_text.error _ _ _ hf]
      rfl
  suffix input failure rest h := by
    cases h with
    | opcode hf => exact decided_opcode.suffix _ _ _ hf
    | operand o hf => exact (decided_text.suffix _ _ _ hf).trans (List.suffix_cons _ _)
  untrailing input n rest h := by
    cases h with
    | opcode hf => exact decided_opcode.untrailing _ _ _ hf
    | operand o hf => exact decided_text.untrailing _ _ _ hf

/-- **Each value is consumed exactly.** A byte, an opcode, a text without zero character and a record
with such a text are read from the front of an input exactly if the input starts with what is written
for them, and then that is what reading takes; they are the only values that are read. One value
alone is read exactly from what is written for it, and with bytes behind it that is the failure.

Where reading fails, it leaves everything if there is no byte or the text does not end; all behind
the byte of an unknown opcode; all behind the text that is not UTF-8 and its zero byte. Where the
operand of a record fails, the byte of the opcode is gone as well. -/
theorem values_consumed_exactly :
    ConsumesExactly UInt8 (fun _ => True) ByteFails ∧
    ConsumesExactly Opcode (fun _ => True) OpcodeFails ∧
    ConsumesExactly String NulFree TextFails ∧
    ConsumesExactly Record (fun r => NulFree r.operand) RecordFails :=
  ⟨decided_byte.consumesExactly, decided_opcode.consumesExactly, decided_text.consumesExactly,
    decided_record.consumesExactly⟩

/-- Two bytes that are not UTF-8 between an opcode and two bytes that are left, a record with one
byte behind it, and an operand without end. -/
theorem values_consumed_exactly_operand :
    (Decode.decode : Decoder Record) [0x02, 0xff, 0xfe, 0x00, 0x31, 0x6f] =
        (.error .invalidUtf8, [0x31, 0x6f]) ∧
      (Decode.fromBytes [0x38, 0xc3, 0xa9, 0x00, 0x31] : Except DecodeFailure Record) =
        .error (.trailingBytes 1) ∧
      (Decode.decode : Decoder Record) [0x02, 0x37] = (.error .unexpectedEnd, [0x37]) := by
  obtain ⟨-, -, -, hrecord⟩ := values_consumed_exactly
  have hmalformed : TextFails [0xff, 0xfe, 0x00, 0x31, 0x6f] .invalidUtf8 [0x31, 0x6f] := by
    refine @TextFails.malformed [0xff, 0xfe] [0x31, 0x6f] (by decide) fun s hs => ?_
    have hnone : ofUtf8? [0xff, 0xfe] = none := by decide +kernel
    rw [← hs, ofUtf8?_utf8] at hnone
    cases hnone
  have hclean : NulFree "é" := by decide
  exact ⟨(hrecord.decode_error_iff _ _ _).2 (.operand .push hmalformed),
    (hrecord.fromBytes_trailing_iff _ _).2 ⟨Nat.one_pos, ⟨.call, "é"⟩, [0x31],
      (hrecord.decode_ok_iff _ _ _).2 ⟨hclean, by decide +kernel⟩, rfl⟩,
    (hrecord.decode_error_iff _ _ _).2 (.operand .push (.unended (by decide)))⟩

end StackMachine
