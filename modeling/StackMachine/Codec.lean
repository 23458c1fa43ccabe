import StackMachine.Opcode
import StackMachine.Text.Utf8

/-!
# The binary codec

Values are written to a byte sink one after another, with no length in front and no padding:
a byte is itself, an opcode is its byte, a text is its UTF-8 form followed by a zero byte.

* `ByteSink`: what can be written to, a byte buffer (`ByteBuffer`) or a counter (`ByteCount`).
* `Encode`, `Decode`: the values that can be written and read.
* `Encode.toBytes`, `Decode.fromBytes`: one value alone; bytes left over are a failure.
-/

namespace StackMachine

/-! ## Sinks -/

/-- A place to write bytes to. -/
class ByteSink (σ : Type) where
  write : σ → Bytes → σ

/-- A byte buffer keeps what it holds and appends. -/
abbrev ByteBuffer := Array UInt8

instance : ByteSink ByteBuffer where
  write buffer bytes := buffer ++ bytes

/-- A sink that only counts. -/
structure ByteCount where
  length : Nat := 0
  deriving DecidableEq, Repr

namespace ByteCount

/-- Nothing was counted yet. -/
def isEmpty (count : ByteCount) : Bool :=
  count.length == 0

instance : ByteSink ByteCount where
  write count bytes := ⟨count.length + bytes.length⟩

end ByteCount

/-! ## Writing -/

/-- The values that can be written to every sink. -/
class Encode (α : Type) where
  encode {σ : Type} [ByteSink σ] : α → σ → σ

/-- The bytes of one value. -/
def Encode.toBytes {α : Type} [Encode α] (value : α) : Bytes :=
  (encode value (#[] : ByteBuffer)).toList

/-- The number of bytes of one value, found without writing them. -/
def Encode.size {α : Type} [Encode α] (value : α) : Nat :=
  (encode value ({} : ByteCount)).length

instance : Encode UInt8 where
  encode b sink := ByteSink.write sink [b]

instance : Encode Opcode where
  encode o sink := Encode.encode o.byte sink

/-- The byte that ends a text. -/
def terminator : UInt8 := 0

instance : Encode String where
  encode text sink := ByteSink.write (ByteSink.write sink (utf8 text)) [terminator]

/-! ## Reading -/

/-- Why a value could not be read. -/
inductive DecodeFailure
  | unexpectedEnd
  | unknownOpcode (byte : UInt8)
  | invalidUtf8
  /-- So many bytes follow the value. -/
  | trailingBytes (count : Nat)
  deriving DecidableEq, Repr

/-- Reading from the front of a byte sequence: a value or a failure, and what is left. -/
abbrev Decoder (α : Type) := ExceptT DecodeFailure (StateM Bytes) α

/-- The values that can be read. -/
class Decode (α : Type) where
  decode : Decoder α

/-- Reads one value that takes up all the bytes. -/
def Decode.fromBytes {α : Type} [Decode α] (bytes : Bytes) : Except DecodeFailure α :=
  match (Decode.decode : Decoder α) bytes with
  | (.error failure, _) => .error failure
  | (.ok value, []) => .ok value
  | (.ok _, rest) => .error (.trailingBytes rest.length)

instance : Decode UInt8 where
  decode
    | [] => (.error .unexpectedEnd, [])
    | b :: rest => (.ok b, rest)

/-- An unknown byte counts as read. -/
instance : Decode Opcode where
  decode
    | [] => (.error .unexpectedEnd, [])
    | b :: rest =>
      match Opcode.ofByte? b with
      | some o => (.ok o, rest)
      | none => (.error (.unknownOpcode b), rest)

/-- The bytes in front of the first terminator and those behind it, if there is one. -/
def splitAtTerminator : Bytes → Option (Bytes × Bytes)
  | [] => none
  | b :: rest =>
    if b = terminator then some ([], rest)
    else (splitAtTerminator rest).map fun (text, behind) => (b :: text, behind)

/-- A text without terminator is left where it is; text that is not UTF-8 counts as read, and so
does its terminator. -/
instance : Decode String where
  decode bytes :=
    match splitAtTerminator bytes with
    | none => (.error .unexpectedEnd, bytes)
    | some (text, rest) =>
      match ofUtf8? text with
      | some text => (.ok text, rest)
      | none => (.error .invalidUtf8, rest)

end StackMachine
