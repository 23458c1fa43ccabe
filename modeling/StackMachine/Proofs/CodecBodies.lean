import StackMachine.Derive.BinaryCodec
import StackMachine.Proofs.Spelling

/-!
# Bodies of derived codecs

What the code says that is generated for a struct: which fields it writes and which ones it reads,
each by the codec of its type, and in which order.

* `WritesFields`, `ReadsFields`: the bodies that write and read some fields.
* **`EncodeBody.writesFields_tokens_iff`**, **`DecodeBody.readsFields_tokens_iff`**: the tokens of a
  body write or read the fields it lists, and can be understood in no other way.
* `CodecCode.Spelled`: the implementations that stand around the bodies.
-/

namespace StackMachine.Derive

/-! ## Fields -/

/-- The fields of a struct as they are accessed, in the order of their declaration. -/
def Fields.members : Fields → List Member
  | unit => []
  | named names => names.map .named
  | unnamed count => (List.range count).map .position

/-- The fields that are written, in this order. -/
def EncodeBody.members : EncodeBody → List Member
  | nothing => []
  | fields members => members

/-- The fields that are given a value, in this order. Behind the name of a tuple struct, the first
value belongs to the first position, and so on. -/
def DecodeBody.members : DecodeBody → List Member
  | nothing => []
  | named names => names.map .named
  | positional positions => (List.range positions.length).map .position

/-! ## Writing -/

/-- The token that stands for a field behind a dot. -/
inductive Accesses : Member → Token → Prop
  | named (name : String) : Accesses (.named name) (.word name)
  | position (i : Nat) : Accesses (.position i) (.number i)

/-- The statement that writes a field to `out`, as its type is written. -/
inductive WriteStatement : Member → List Token → Prop
  | mk {m : Member} {access : Token} (h : Accesses m access) :
      WriteStatement m (spelled "crate::types::encoding::Encode::encode(&self." ++ [access] ++
        spelled ", out);")

/-- A body that writes these fields to `out`, one after another. -/
inductive WritesFields : List Member → List Token → Prop
  | nothing : WritesFields [] (spelled "let _ = out;")
  | statements {ms : List Member} {tokens : List Token} (h : Each WriteStatement ms tokens) :
      WritesFields ms tokens

section

variable {m m' : Member} {ms ms' : List Member} {access : Token} {tokens : List Token}

theorem accesses_token (m : Member) : Accesses m m.token := by
  cases m with
  | named name => exact .named name
  | position i => exact .position i

theorem Accesses.unique (h : Accesses m access) (h' : Accesses m' access) : m = m' := by
  cases h <;> cases h' <;> rfl

theorem Member.encodeTokens_eq (m : Member) : m.encodeTokens =
    spelled "crate::types::encoding::Encode::encode(&self." ++ [m.token] ++ spelled ", out);" := by
  have hfront : spelled "crate::types::encoding::Encode::encode(&self." =
      codecPath ["Encode", "encode"] ++ [.mark '(', .mark '&', .word "self", .mark '.'] := by
    decide +kernel
  have hback : spelled ", out);" = [.mark ',', .word "out", .mark ')', .mark ';'] := by
    decide +kernel
  rw [hfront, hback]
  simp [Member.encodeTokens, Token.parens]

theorem selfDelimiting_writeStatement : SelfDelimiting WriteStatement where
  ne_nil := by
    rintro m _ rest ⟨h⟩
    simp
  unique := by
    rintro m m' _ _ rest rest' ⟨h⟩ ⟨h'⟩ heq
    obtain ⟨rfl, rfl⟩ := by simpa using heq
    exact ⟨h.unique h', rfl⟩

theorem spelled_ignoring_out : spelled "let _ = out;" = ignoring "out" := by
  decide +kernel

/-- No statement begins like the one that ignores the parameter. -/
theorem not_writeStatements_ignoring : ¬ Each WriteStatement ms (spelled "let _ = out;") := by
  rw [spelled_ignoring_out]
  have hfront : (spelled "crate::types::encoding::Encode::encode(&self.").head? =
      some (.word "crate") := by decide +kernel
  generalize htokens : ignoring "out" = tokens
  rintro (_ | ⟨⟨_⟩, _⟩)
  · cases htokens
  · have hhead := congrArg List.head? htokens
    simp [List.head?_append, hfront, ignoring] at hhead

theorem WritesFields.unique (h : WritesFields ms tokens) (h' : WritesFields ms' tokens) :
    ms = ms' := by
  cases h with
  | nothing =>
    generalize htokens : spelled "let _ = out;" = tokens at h'
    cases h' with
    | nothing => rfl
    | statements h' =>
      rw [← htokens] at h'
      exact absurd h' not_writeStatements_ignoring
  | statements h =>
    cases h' with
    | nothing => exact absurd h not_writeStatements_ignoring
    | statements h' => exact h.unique selfDelimiting_writeStatement h'

theorem writeStatement_encodeTokens (m : Member) : WriteStatement m m.encodeTokens := by
  rw [m.encodeTokens_eq]
  exact .mk (accesses_token m)

/-- **The tokens of a body write the fields it lists**, and no others. -/
theorem EncodeBody.writesFields_tokens_iff (body : EncodeBody) :
    WritesFields ms body.tokens ↔ ms = body.members := by
  have h : WritesFields body.members body.tokens := by
    cases body with
    | nothing =>
      rw [EncodeBody.tokens, ← spelled_ignoring_out]
      exact .nothing
    | fields members => exact .statements (each_flatMap writeStatement_encodeTokens members)
  exact ⟨fun h' => h'.unique h, fun heq => heq ▸ h⟩

end

/-! ## Reading -/

/-- The value for the field of a name, read from `input` as its type is. -/
inductive NamedValue : String → List Token → Prop
  | mk (name : String) :
      NamedValue name (.word name :: spelled ": crate::types::encoding::Decode::decode(input)?,")

/-- A value that is read from `input` as the type of the next field is. -/
inductive NextValue : Unit → List Token → Prop
  | mk : NextValue () (spelled "crate::types::encoding::Decode::decode(input)?,")

/-- A body that reads these fields from `input`, one after another up to the first failure, and
yields the value with these fields. -/
inductive ReadsFields : List Member → List Token → Prop
  | nothing : ReadsFields [] (spelled "let _ = input; Ok(Self)")
  | named {names : List String} {values : List Token} (h : Each NamedValue names values) :
      ReadsFields (names.map .named) (spelled "Ok(Self \x7b" ++ values ++ spelled "\x7d)")
  | positional {count : Nat} {values : List Token}
      (h : Each NextValue (List.replicate count ()) values) :
      ReadsFields ((List.range count).map .position) (spelled "Ok(Self(" ++ values ++ spelled "))")

section

variable {ms ms' : List Member} {tokens : List Token}

theorem spelled_decode :
    spelled "crate::types::encoding::Decode::decode(input)?," = decodeTokens := by
  decide +kernel

theorem spelled_colon_decode :
    spelled ": crate::types::encoding::Decode::decode(input)?," = .mark ':' :: decodeTokens := by
  decide +kernel

theorem selfDelimiting_namedValue : SelfDelimiting NamedValue where
  ne_nil := by
    rintro name _ rest ⟨⟩
    exact nofun
  unique := by
    rintro name name' _ _ rest rest' ⟨⟩ ⟨⟩ heq
    simpa using heq

theorem selfDelimiting_nextValue : SelfDelimiting NextValue where
  ne_nil := by
    rintro _ _ rest ⟨⟩
    simp [spelled_decode, decodeTokens]
  unique := by
    rintro _ _ _ _ rest rest' ⟨⟩ ⟨⟩ heq
    exact ⟨rfl, List.append_cancel_left heq⟩

theorem spelled_ignoring_input :
    spelled "let _ = input; Ok(Self)" = ignoring "input" ++ yielding [] := by
  decide +kernel

theorem spelled_named :
    spelled "Ok(Self \x7b" = [.word "Ok", .mark '(', .word "Self", .mark '\x7b'] := by
  decide +kernel

theorem spelled_positional :
    spelled "Ok(Self(" = [.word "Ok", .mark '(', .word "Self", .mark '('] := by
  decide +kernel

theorem yielding_braces (values : List Token) :
    yielding (Token.braces values) = spelled "Ok(Self \x7b" ++ values ++ spelled "\x7d)" := by
  have hend : spelled "\x7d)" = [.mark '\x7d', .mark ')'] := rfl
  rw [spelled_named, hend]
  simp [yielding, Token.braces, Token.parens]

theorem yielding_parens (values : List Token) :
    yielding (Token.parens values) = spelled "Ok(Self(" ++ values ++ spelled "))" := by
  have hend : spelled "))" = [.mark ')', .mark ')'] := rfl
  rw [spelled_positional, hend]
  simp [yielding, Token.parens]

theorem ReadsFields.unique (h : ReadsFields ms tokens) (h' : ReadsFields ms' tokens) :
    ms = ms' := by
  -- the first token, or the one behind `Self`, tells the three kinds of bodies apart
  cases h with
  | nothing =>
    generalize htokens : spelled "let _ = input; Ok(Self)" = whole at h'
    cases h' with
    | nothing => rfl
    | named => simp [spelled_ignoring_input, spelled_named, ignoring] at htokens
    | positional => simp [spelled_ignoring_input, spelled_positional, ignoring] at htokens
  | @named names values h =>
    generalize htokens : spelled "Ok(Self \x7b" ++ values ++ spelled "\x7d)" = whole at h'
    cases h' with
    | nothing => simp [spelled_ignoring_input, spelled_named, ignoring] at htokens
    | positional => simp [spelled_named, spelled_positional] at htokens
    | named h' =>
      obtain rfl : values = _ := by simpa using htokens
      rw [h.unique selfDelimiting_namedValue h']
  | @positional count values h =>
    generalize htokens : spelled "Ok(Self(" ++ values ++ spelled "))" = whole at h'
    cases h' with
    | nothing => simp [spelled_ignoring_input, spelled_positional, ignoring] at htokens
    | named => simp [spelled_named, spelled_positional] at htokens
    | positional h' =>
      obtain rfl : values = _ := by simpa using htokens
      have hcounts := congrArg List.length (h.unique selfDelimiting_nextValue h')
      rw [List.length_replicate, List.length_replicate] at hcounts
      rw [hcounts]

theorem namedValue_tokens (name : String) :
    NamedValue name (.word name :: .mark ':' :: decodeTokens) := by
  rw [← spelled_colon_decode]
  exact .mk name

theorem each_nextValue (positions : List Nat) :
    Each NextValue (List.replicate positions.length ())
      (positions.flatMap fun _ => decodeTokens) := by
  induction positions with
  | nil => exact .nil
  | cons i positions ih =>
    rw [List.flatMap_cons, ← spelled_decode]
    exact .cons .mk ih

/-- **The tokens of a body read the fields it lists**, and no others. -/
theorem DecodeBody.readsFields_tokens_iff (body : DecodeBody) :
    ReadsFields ms body.tokens ↔ ms = body.members := by
  have h : ReadsFields body.members body.tokens := by
    cases body with
    | nothing =>
      rw [DecodeBody.tokens, ← spelled_ignoring_input]
      exact .nothing
    | named names =>
      rw [DecodeBody.tokens, yielding_braces]
      exact .named (each_flatMap namedValue_tokens names)
    | positional positions =>
      rw [DecodeBody.tokens, yielding_parens]
      exact .positional (each_nextValue positions)
  exact ⟨fun h' => h'.unique h, fun heq => heq ▸ h⟩

end

/-! ## Implementations -/

/-- The code of a codec is spelled like this, around its two bodies. -/
def CodecCode.Spelled (code : CodecCode) (item : Item) : Prop :=
  ∃ encode decode,
    Implements "crate::types::encoding::Encode" item.name item.generics
      (spelled "fn encode<S: crate::types::encoding::EncodeSink>(&self, out: &mut S) \x7b" ++
        code.encode.tokens ++ spelled "\x7d") encode ∧
    Implements "crate::types::encoding::Decode" item.name item.generics
      (spelled "fn decode(input: &mut &[u8]) ->" ++
        spelled "::std::result::Result<Self, crate::types::encoding::DecodeError> \x7b" ++
        code.decode.tokens ++ spelled "\x7d") decode ∧
    code.tokens = encode ++ decode

/-- **The code of a codec is generated as it is spelled.** -/
theorem CodecCode.spelled_of_ofItem {item : Item} {code : CodecCode}
    (h : CodecCode.ofItem item = .ok code) : code.Spelled item := by
  have hcode : code.name = item.name ∧ code.generics = item.generics := by
    unfold CodecCode.ofItem at h
    split at h <;> cases h
    exact ⟨rfl, rfl⟩
  have hencode :
      spelled "fn encode<S: crate::types::encoding::EncodeSink>(&self, out: &mut S) \x7b" =
        [.word "fn", .word "encode"] ++
          Token.angles (.word sinkName :: .mark ':' :: codecPath ["EncodeSink"]) ++
          Token.parens [.mark '&', .word "self", .mark ',', .word "out", .mark ':', .mark '&',
            .word "mut", .word sinkName] ++ [.mark '\x7b'] := by decide +kernel
  have hinput : spelled "fn decode(input: &mut &[u8]) ->" = [.word "fn", .word "decode"] ++
      Token.parens [.word "input", .mark ':', .mark '&', .word "mut", .mark '&', .mark '[',
        .word "u8", .mark ']'] ++ Token.marks "->" := by decide +kernel
  have hresult : spelled "::std::result::Result<Self, crate::types::encoding::DecodeError> \x7b" =
      Token.rooted ["std", "result", "Result"] ++
        Token.angles (.word "Self" :: .mark ',' :: codecPath ["DecodeError"]) ++
        [.mark '\x7b'] := by decide +kernel
  have hend : spelled "\x7d" = [.mark '\x7d'] := rfl
  have hwriting : spelled "crate::types::encoding::Encode" = codecPath ["Encode"] := by
    decide +kernel
  have hreading : spelled "crate::types::encoding::Decode" = codecPath ["Decode"] := by
    decide +kernel
  refine ⟨_, _, implements_implementation, implements_implementation, ?_⟩
  rw [CodecCode.tokens, hcode.1, hcode.2, hencode, hinput, hresult, hend, hwriting, hreading]
  simp only [Token.braces, List.append_assoc, List.cons_append, List.nil_append]

end StackMachine.Derive
