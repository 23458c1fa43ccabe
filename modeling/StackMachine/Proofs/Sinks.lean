import Mathlib.Algebra.GroupWithZero.Nat
import StackMachine.Proofs.Image

/-!
# Counting and writing

The space for the bytes of a value is found by writing the value to a counter first. The code that
writes is the same for every sink, so that a counter and a buffer are given the same pieces.

* `Value`: the values that can be written; `encodeAll`: one after another.
* `Value.pieces`: what is written for a value, write by write; **`encodeAll_eq_foldl`**: every sink
  is given these.
* `toList_foldl_write`, `length_foldl_write`: what a buffer and a counter make of pieces.
* **`sinks_in_step`**: they grow alike, and the bytes of a value fill the space that was counted.
-/

namespace StackMachine

/-! ## Values -/

/-- The values that can be written. -/
inductive Value
  | byte (b : UInt8)
  | opcode (o : Opcode)
  | text (s : String)
  | record (r : Record)
  | listing (l : Listing)

instance : Encode Value where
  encode v sink :=
    match v with
    | .byte b => Encode.encode b sink
    | .opcode o => Encode.encode o sink
    | .text s => Encode.encode s sink
    | .record r => Encode.encode r sink
    | .listing l => Encode.encode l sink

variable {σ : Type} [ByteSink σ]

/-- Writes values one after another. -/
def encodeAll (vs : List Value) (sink : σ) : σ :=
  vs.foldl (fun sink v => Encode.encode v sink) sink

/-! ## Pieces -/

/-- The writes for a record. -/
def Record.pieces (r : Record) : List Bytes :=
  [[r.opcode.byte], utf8 r.operand, [terminator]]

/-- The writes for a value. -/
def Value.pieces : Value → List Bytes
  | byte b => [[b]]
  | opcode o => [[o.byte]]
  | text s => [utf8 s, [terminator]]
  | record r => r.pieces
  | listing l => l.records.flatMap Record.pieces

theorem Value.encode_eq_foldl (v : Value) (sink : σ) :
    Encode.encode v sink = v.pieces.foldl ByteSink.write sink := by
  cases v with
  | byte | opcode | text | record => rfl
  | listing l =>
    rw [pieces, List.foldl_flatMap]
    rfl

/-- **Every sink is given the same pieces.** -/
theorem encodeAll_eq_foldl (vs : List Value) (sink : σ) :
    encodeAll vs sink = (vs.flatMap Value.pieces).foldl ByteSink.write sink := by
  rw [List.foldl_flatMap]
  simp only [encodeAll, Value.encode_eq_foldl]

/-! ## Buffers and counters -/

/-- A buffer keeps what it holds, and the pieces follow. -/
theorem toList_foldl_write (pieces : List Bytes) (buffer : ByteBuffer) :
    (pieces.foldl ByteSink.write buffer).toList = buffer.toList ++ pieces.flatten := by
  induction pieces generalizing buffer with
  | nil => simp
  | cons piece pieces ih =>
    have hwrite : (ByteSink.write buffer piece).toList = buffer.toList ++ piece :=
      Array.toList_appendList
    rw [List.foldl_cons, ih, hwrite, List.append_assoc, List.flatten_cons]

/-- A counter grows by the bytes of the pieces. -/
theorem length_foldl_write (pieces : List Bytes) (count : ByteCount) :
    (pieces.foldl ByteSink.write count).length = count.length + pieces.flatten.length := by
  induction pieces generalizing count with
  | nil => rfl
  | cons piece pieces ih =>
    have hwrite : (ByteSink.write count piece).length = count.length + piece.length := rfl
    rw [List.foldl_cons, ih, hwrite, Nat.add_assoc, List.flatten_cons, List.length_append]

theorem Value.toBytes_eq (v : Value) : Encode.toBytes v = v.pieces.flatten := by
  rw [Encode.toBytes, v.encode_eq_foldl, toList_foldl_write]
  exact List.nil_append _

theorem Value.length_toBytes (v : Value) : (Encode.toBytes v).length = Encode.size v := by
  rw [Encode.size, v.encode_eq_foldl, length_foldl_write, v.toBytes_eq]
  exact (Nat.zero_add _).symm

theorem flatten_flatMap_pieces (vs : List Value) :
    (vs.flatMap Value.pieces).flatten = vs.flatMap Encode.toBytes := by
  induction vs with
  | nil => rfl
  | cons v vs ih =>
    rw [List.flatMap_cons, List.flatten_append, ih, List.flatMap_cons, v.toBytes_eq]

theorem Record.length_bytes (r : Record) : r.bytes.length = r.operand.utf8ByteSize + 2 := by
  simp [bytes]

/-- **Counting and writing agree.** Whatever values are written one after another, a counter grows by
as many bytes as a buffer, which keeps what it holds and is given the bytes of the values, value by
value. So the bytes of each value fill the space that is counted for it; those of a listing are, for
each record, the bytes of its operand and two more. -/
theorem sinks_in_step (vs : List Value) (buffer : ByteBuffer) (count : ByteCount) :
    (encodeAll vs buffer).toList = buffer.toList ++ vs.flatMap Encode.toBytes ∧
    (∃ growth, (encodeAll vs count).length = count.length + growth ∧
      (encodeAll vs buffer).size = buffer.size + growth) ∧
    (∀ v : Value, (Encode.toBytes v).length = Encode.size v) ∧
    ∀ l : Listing, l.image.length = Encode.size l ∧
      l.image.length = (l.records.map fun r => r.operand.utf8ByteSize + 2).sum := by
  have hbuffer : (encodeAll vs buffer).toList = buffer.toList ++ vs.flatMap Encode.toBytes := by
    rw [encodeAll_eq_foldl, toList_foldl_write, flatten_flatMap_pieces]
  have hcount : (encodeAll vs count).length =
      count.length + (vs.flatMap Encode.toBytes).length := by
    rw [encodeAll_eq_foldl, length_foldl_write, flatten_flatMap_pieces]
  refine ⟨hbuffer, ⟨_, hcount, ?_⟩, Value.length_toBytes, fun l => ⟨?_, ?_⟩⟩
  · rw [← Array.length_toList, hbuffer, List.length_append, Array.length_toList]
  · exact Value.length_toBytes (.listing l)
  · rw [l.image_eq, List.length_flatMap]
    exact congrArg List.sum (List.map_congr_left fun r _ => r.length_bytes)

/-- Behind a byte that is there already: an operand of one character and two bytes. -/
example : encodeAll [.opcode .begin, .record ⟨.call, "é"⟩] (#[7] : ByteBuffer) =
      #[7, 0x00, 0x38, 0xc3, 0xa9, 0x00] ∧
    (encodeAll [.opcode .begin, .record ⟨.call, "é"⟩] (⟨1⟩ : ByteCount)).length = 6 := by
  decide +kernel

end StackMachine
