import StackMachine.Derive.Item
import StackMachine.Derive.Token

/-!
# Deriving binary codecs

The code derived for a struct writes its fields in the order of their declaration and reads them
in the same order. Enums and unions are rejected.

* `CodecCode.ofItem`: the code for an item, or why there is none.
* `CodecCode.tokens`: that code as tokens.
-/

namespace StackMachine.Derive

/-- A field of a struct, as it is accessed. -/
inductive Member
  | named (name : String)
  | position (i : Nat)
  deriving DecidableEq, Repr

/-- What the code does to write a value. -/
inductive EncodeBody
  /-- Nothing. -/
  | nothing
  /-- Writes these fields one after another. -/
  | fields (members : List Member)
  deriving DecidableEq, Repr

/-- What the code does to read a value. -/
inductive DecodeBody
  /-- Nothing: the value has no fields. -/
  | nothing
  /-- Reads the fields with these names one after another. -/
  | named (names : List String)
  /-- Reads the fields at these positions one after another. -/
  | positional (positions : List Nat)
  deriving DecidableEq, Repr

/-- The code derived for a struct. -/
structure CodecCode where
  name : String
  generics : List String
  encode : EncodeBody
  decode : DecodeBody
  deriving DecidableEq, Repr

/-- How a struct with these fields is written. -/
def Fields.encodeBody : Fields → EncodeBody
  | unit => .nothing
  | named names => .fields (names.map .named)
  | unnamed count => .fields ((List.range count).map .position)

/-- How a struct with these fields is read. -/
def Fields.decodeBody : Fields → DecodeBody
  | unit => .nothing
  | named names => .named names
  | unnamed count => .positional (List.range count)

/-- The code for an item. -/
def CodecCode.ofItem (item : Item) : Except Rejection CodecCode :=
  match item.body with
  | .struct fields =>
    .ok { name := item.name, generics := item.generics, encode := fields.encodeBody,
          decode := fields.decodeBody }
  | .enum _ => .error .codecOfEnum
  | .union => .error .codecOfUnion

/-! ## Tokens -/

/-- The name of the type parameter that stands for the sink. -/
def sinkName : String := "S"

/-- A path to the codec's own definitions. -/
def codecPath (names : List String) : List Token :=
  Token.path (["crate", "types", "encoding"] ++ names)

/-- The token of a field access. -/
def Member.token : Member → Token
  | named name => .word name
  | position i => .number i

/-- The tokens that ignore a parameter. -/
def ignoring (parameter : String) : List Token :=
  [.word "let", .word "_", .mark '=', .word parameter, .mark ';']

/-- The tokens that write one field. -/
def Member.encodeTokens (m : Member) : List Token :=
  codecPath ["Encode", "encode"] ++
    Token.parens [.mark '&', .word "self", .mark '.', m.token, .mark ',', .word "out"] ++
    [.mark ';']

/-- The tokens that read one field. -/
def decodeTokens : List Token :=
  codecPath ["Decode", "decode"] ++ Token.parens [.word "input"] ++ [.mark '?', .mark ',']

/-- The tokens of the body that writes a value. -/
def EncodeBody.tokens : EncodeBody → List Token
  | nothing => ignoring "out"
  | fields members => members.flatMap Member.encodeTokens

/-- The tokens that yield a value. -/
def yielding (value : List Token) : List Token :=
  .word "Ok" :: Token.parens (.word "Self" :: value)

/-- The tokens of the body that reads a value. -/
def DecodeBody.tokens : DecodeBody → List Token
  | nothing => ignoring "input" ++ yielding []
  | named names =>
    yielding <| Token.braces <| names.flatMap fun name => .word name :: .mark ':' :: decodeTokens
  | positional positions => yielding <| Token.parens <| positions.flatMap fun _ => decodeTokens

/-- The tokens of the code for an item. -/
def CodecCode.tokens (code : CodecCode) : List Token :=
  let writing : List Token :=
    [.word "fn", .word "encode"] ++
      Token.angles (.word sinkName :: .mark ':' :: codecPath ["EncodeSink"]) ++
      Token.parens [.mark '&', .word "self", .mark ',', .word "out", .mark ':', .mark '&',
        .word "mut", .word sinkName] ++
      Token.braces code.encode.tokens
  let reading : List Token :=
    [.word "fn", .word "decode"] ++
      Token.parens [.word "input", .mark ':', .mark '&', .word "mut", .mark '&', .mark '[',
        .word "u8", .mark ']'] ++
      Token.marks "->" ++ Token.rooted ["std", "result", "Result"] ++
      Token.angles (.word "Self" :: .mark ',' :: codecPath ["DecodeError"]) ++
      Token.braces code.decode.tokens
  Token.implementation code.generics (codecPath ["Encode"]) code.name writing ++
    Token.implementation code.generics (codecPath ["Decode"]) code.name reading

end StackMachine.Derive
