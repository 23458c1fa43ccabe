import StackMachine.Fault

/-!
# Listings and images

A listing is a program whose operands are still text: one record per source line. An image is
its binary form, record after record: the opcode byte, the operand text, a terminator.

* `Listing.image`: the image of a listing.
* `Listing.ofImage`: the listing of an image; a failure carries the offset of the record that
  could not be read.
-/

namespace StackMachine

/-- One line of a program: an opcode and the text of its operand. -/
structure Record where
  opcode : Opcode
  operand : String
  deriving DecidableEq, Repr

/-- The records of a program; the position of a record is its line, counted from 0. -/
structure Listing where
  records : List Record := []
  deriving DecidableEq, Repr

/-! ## Writing -/

instance : Encode Record where
  encode r sink := Encode.encode r.operand (Encode.encode r.opcode sink)

instance : Encode Listing where
  encode p sink := p.records.foldl (fun sink r => Encode.encode r sink) sink

/-- The image of a listing. -/
def Listing.image (p : Listing) : Bytes :=
  Encode.toBytes p

/-! ## Reading -/

/-- The opcode and then the operand; where the operand fails, the opcode counts as read. -/
instance : Decode Record where
  decode bytes :=
    match (Decode.decode : Decoder Opcode) bytes with
    | (.error failure, rest) => (.error failure, rest)
    | (.ok opcode, rest) =>
      match (Decode.decode : Decoder String) rest with
      | (.error failure, rest) => (.error failure, rest)
      | (.ok operand, rest) => (.ok ⟨opcode, operand⟩, rest)

theorem length_of_splitAtTerminator {bytes text rest : Bytes}
    (h : splitAtTerminator bytes = some (text, rest)) :
    bytes.length = text.length + 1 + rest.length := by
  induction bytes generalizing text rest with
  | nil => cases h
  | cons b bytes ih =>
    unfold splitAtTerminator at h
    split at h
    · cases h
      simp; omega
    · obtain ⟨⟨text', rest'⟩, h', e⟩ := Option.map_eq_some_iff.1 h
      cases e
      simp [ih h']; omega

theorem length_lt_of_decode_opcode {bytes rest : Bytes} {o : Opcode}
    (h : (Decode.decode : Decoder Opcode) bytes = (.ok o, rest)) :
    rest.length < bytes.length := by
  cases bytes with
  | nil => cases h
  | cons b bytes =>
    simp only [Decode.decode] at h
    split at h <;> cases h
    simp

theorem length_lt_of_decode_string {bytes rest : Bytes} {s : String}
    (h : (Decode.decode : Decoder String) bytes = (.ok s, rest)) :
    rest.length < bytes.length := by
  simp only [Decode.decode] at h
  split at h
  · cases h
  · next text behind hs =>
    split at h <;> cases h
    have := length_of_splitAtTerminator hs
    omega

/-- Every record takes bytes, so that an image is read in finitely many steps. -/
theorem length_lt_of_decode_record {bytes rest : Bytes} {r : Record}
    (h : (Decode.decode : Decoder Record) bytes = (.ok r, rest)) :
    rest.length < bytes.length := by
  simp only [Decode.decode] at h
  split at h
  · cases h
  · next o behind ho =>
    split at h
    · cases h
    · next s behind' hs =>
      cases h
      exact Nat.lt_trans (length_lt_of_decode_string hs) (length_lt_of_decode_opcode ho)

/-- What a record that cannot be read means for the image, by the offset of the record. -/
def Cause.ofDecodeFailure (offset : Nat) : DecodeFailure → Cause
  | .unknownOpcode byte => .invalidOpcode byte offset
  | reason => .undecodable offset reason

/-- The records of the bytes that start at an offset of an image. -/
def recordsFrom (offset : Nat) (bytes : Bytes) : Except Cause (List Record) :=
  if bytes = [] then .ok []
  else
    match h : (Decode.decode : Decoder Record) bytes with
    | (.error failure, _) => .error (.ofDecodeFailure offset failure)
    | (.ok r, rest) =>
      have := length_lt_of_decode_record h
      match recordsFrom (offset + (bytes.length - rest.length)) rest with
      | .error c => .error c
      | .ok rs => .ok (r :: rs)
termination_by bytes.length

@[simp] theorem recordsFrom_nil (offset : Nat) : recordsFrom offset [] = .ok [] := by
  simp [recordsFrom]

/-- The first record that cannot be read decides. -/
theorem recordsFrom_of_error {bytes rest : Bytes} {failure : DecodeFailure} (offset : Nat)
    (hne : bytes ≠ []) (h : (Decode.decode : Decoder Record) bytes = (.error failure, rest)) :
    recordsFrom offset bytes = .error (.ofDecodeFailure offset failure) := by
  rw [recordsFrom, if_neg hne]
  split
  · next h' => rw [h] at h'; cases h'; rfl
  · next h' => rw [h] at h'; cases h'

/-- A record that can be read stands in front of the records behind it. -/
theorem recordsFrom_of_ok {bytes rest : Bytes} {r : Record} (offset : Nat)
    (h : (Decode.decode : Decoder Record) bytes = (.ok r, rest)) :
    recordsFrom offset bytes =
      (recordsFrom (offset + (bytes.length - rest.length)) rest).map (r :: ·) := by
  have hne : bytes ≠ [] := by rintro rfl; cases h
  rw [recordsFrom, if_neg hne]
  split
  · next h' => rw [h] at h'; cases h'
  · next h' =>
    rw [h] at h'
    cases h'
    cases recordsFrom (offset + (bytes.length - rest.length)) rest <;> rfl

/-- The listing of an image. -/
def Listing.ofImage (image : Bytes) : Except Cause Listing :=
  (recordsFrom 0 image).map Listing.mk

end StackMachine
