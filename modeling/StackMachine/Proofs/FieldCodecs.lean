import Mathlib.Data.List.Nodup
import StackMachine.Listing
import StackMachine.Proofs.CodecBodies

/-!
# Codecs of structs

The code derived for a struct writes the fields it lists one after another, and fills the fields it
lists with what is read one after another, up to the first failure. With a codec for each field that
is a codec of the struct, and as good a one as those of the fields.

* `Codec`: how the values of a type are written and read; `Codec.ReadsBack`, `Codec.Exact`.
* `FieldValues`: a value for each field; `writeMembers`, `readMembers`: one field after another.
* **`readMembers_writeMembers`**, **`eq_writeMembers_of_readMembers`**: by induction on the fields.
* `CodecCode.codec`: the codec that the derived code stands for; **`derived_codec_faithful`**.
* `record_codec`: the codec of records is the one derived for their two fields.
-/

namespace StackMachine.Derive

/-! ## Codecs -/

/-- How the values of a type are written and read. -/
structure Codec (α : Type) where
  encode : α → Bytes
  decode : Decoder α

namespace Codec

variable {α : Type}

/-- What is written is read back, and what follows it is left. -/
def ReadsBack (c : Codec α) : Prop :=
  ∀ x rest, c.decode (c.encode x ++ rest) = (.ok x, rest)

/-- Where reading succeeds, it takes exactly what is written for the value. -/
def Exact (c : Codec α) : Prop :=
  ∀ input x rest, c.decode input = (.ok x, rest) → input = c.encode x ++ rest

/-- The codec of a type by its instances. -/
def ofInstances (α : Type) [Encode α] [Decode α] : Codec α where
  encode := Encode.toBytes
  decode := Decode.decode

end Codec

theorem bind_eq {α β : Type} (x : Decoder α) (f : α → Decoder β) (input : Bytes) :
    (x >>= f) input = match x input with
      | (.ok a, behind) => f a behind
      | (.error failure, behind) => (.error failure, behind) := by
  change (ExceptT.bind x f) input = _
  simp only [ExceptT.bind, ExceptT.mk, bind, StateT.bind, ExceptT.bindCont]
  cases x input with
  | mk outcome behind => cases outcome <;> rfl

theorem bind_eq_ok_iff {α β : Type} {x : Decoder α} {f : α → Decoder β} {input rest : Bytes}
    {b : β} : (x >>= f) input = (.ok b, rest) ↔
      ∃ a behind, x input = (.ok a, behind) ∧ f a behind = (.ok b, rest) := by
  rw [bind_eq]
  constructor
  · intro h
    split at h
    · next a behind hx => exact ⟨a, behind, hx, h⟩
    · cases h
  · rintro ⟨a, behind, hx, h⟩
    rw [hx]
    exact h

theorem pure_eq_ok_iff {α : Type} {a b : α} {input rest : Bytes} :
    (pure a : Decoder α) input = (.ok b, rest) ↔ a = b ∧ input = rest := by
  change ((.ok a, input) : Except DecodeFailure α × Bytes) = (.ok b, rest) ↔ _
  rw [Prod.mk.injEq, Except.ok.injEq]

/-! ## One field after another -/

/-- No two fields have one name, as in every declaration that is well formed. -/
def Fields.Distinct (fields : Fields) : Prop :=
  ∀ names, fields = named names → names.Nodup

theorem Fields.Distinct.nodup_members {fields : Fields} (h : fields.Distinct) :
    fields.members.Nodup := by
  cases fields with
  | unit => exact List.nodup_nil
  | named names => exact (h names rfl).map fun _ _ => Member.named.inj
  | unnamed count => exact List.nodup_range.map fun _ _ => Member.position.inj

/-- A value for each of these fields, where `T m` is the type of the field `m`. -/
def FieldValues (T : Member → Type) (members : List Member) : Type :=
  ∀ m ∈ members, T m

namespace FieldValues

variable {T : Member → Type} {m : Member} {members : List Member}

def head (v : FieldValues T (m :: members)) : T m :=
  v m List.mem_cons_self

def restrict {members' : List Member} (h : members' ⊆ members) (v : FieldValues T members) :
    FieldValues T members' :=
  fun m hm => v m (h hm)

def tail (v : FieldValues T (m :: members)) : FieldValues T members :=
  v.restrict (List.subset_cons_self m members)

/-- The values of no fields. -/
def empty : FieldValues T [] :=
  fun _ h => absurd h List.not_mem_nil

/-- A value for one more field. -/
def cons (x : T m) (v : FieldValues T members) : FieldValues T (m :: members) :=
  fun m' hm' =>
    if h : m' = m then h ▸ x else v m' ((List.mem_cons.1 hm').resolve_left h)

theorem eq_empty (v : FieldValues T []) : v = empty := by
  funext m hm
  cases hm

@[simp] theorem head_cons (x : T m) (v : FieldValues T members) : (cons x v).head = x :=
  dif_pos rfl

theorem tail_cons (h : m ∉ members) (x : T m) (v : FieldValues T members) :
    (cons x v).tail = v := by
  funext m' hm'
  exact dif_neg (ne_of_mem_of_not_mem hm' h)

@[simp] theorem cons_head_tail (v : FieldValues T (m :: members)) : cons v.head v.tail = v := by
  funext m' hm'
  unfold cons
  split
  · next h =>
    subst h
    rfl
  · rfl

end FieldValues

section

variable {T : Member → Type} (codecs : ∀ m, Codec (T m))

/-- Writes the values of these fields one after another. -/
def writeMembers : (members : List Member) → FieldValues T members → Bytes
  | [], _ => []
  | m :: members, v => (codecs m).encode v.head ++ writeMembers members v.tail

/-- Reads values for these fields one after another; the first failure decides. -/
def readMembers : (members : List Member) → Decoder (FieldValues T members)
  | [] => pure .empty
  | m :: members => do
    let x ← (codecs m).decode
    let v ← readMembers members
    return .cons x v

variable {codecs} {members : List Member} {input rest : Bytes}

theorem readMembers_nil_eq_ok_iff {v : FieldValues T []} :
    readMembers codecs [] input = (.ok v, rest) ↔ input = rest := by
  rw [readMembers, pure_eq_ok_iff, and_iff_right v.eq_empty.symm]

theorem readMembers_cons_eq_ok_iff {m : Member} {v : FieldValues T (m :: members)} :
    readMembers codecs (m :: members) input = (.ok v, rest) ↔
      ∃ x behind w, (codecs m).decode input = (.ok x, behind) ∧
        readMembers codecs members behind = (.ok w, rest) ∧ .cons x w = v := by
  simp only [readMembers, bind_eq_ok_iff, pure_eq_ok_iff]
  constructor
  · rintro ⟨x, behind, hx, w, _, hw, rfl, rfl⟩
    exact ⟨x, behind, w, hx, hw, rfl⟩
  · rintro ⟨x, behind, w, hx, hw, rfl⟩
    exact ⟨x, behind, hx, w, rest, hw, rfl, rfl⟩

/-- **The values of fields are read back** if each one is, whatever follows. -/
theorem readMembers_writeMembers (h : ∀ m ∈ members, (codecs m).ReadsBack)
    (v : FieldValues T members) :
    readMembers codecs members (writeMembers codecs members v ++ rest) = (.ok v, rest) := by
  induction members with
  | nil => exact readMembers_nil_eq_ok_iff.2 rfl
  | cons m members ih =>
    obtain ⟨hm, hmembers⟩ := List.forall_mem_cons.1 h
    refine readMembers_cons_eq_ok_iff.2
      ⟨v.head, writeMembers codecs members v.tail ++ rest, v.tail, ?_, ih hmembers v.tail,
        v.cons_head_tail⟩
    rw [writeMembers, List.append_assoc]
    exact hm _ _

/-- **Reading fields takes exactly what is written for them** if this is so for each one. -/
theorem eq_writeMembers_of_readMembers (hdistinct : members.Nodup)
    (h : ∀ m ∈ members, (codecs m).Exact) {v : FieldValues T members}
    (hread : readMembers codecs members input = (.ok v, rest)) :
    input = writeMembers codecs members v ++ rest := by
  induction members generalizing input with
  | nil => exact readMembers_nil_eq_ok_iff.1 hread
  | cons m members ih =>
    obtain ⟨hm, hmembers⟩ := List.forall_mem_cons.1 h
    obtain ⟨hnew, hdistinct⟩ := List.nodup_cons.1 hdistinct
    obtain ⟨x, behind, w, hx, hw, rfl⟩ := readMembers_cons_eq_ok_iff.1 hread
    -- the first field is not filled once more by the others, so what was read for them is kept
    rw [writeMembers, FieldValues.head_cons, FieldValues.tail_cons hnew, List.append_assoc,
      ← ih hdistinct hmembers hw]
    exact hm input x behind hx

end

/-! ## Derived codecs -/

/-- The code fits a struct with these fields: it accesses no other fields, and gives a value to each
one. -/
structure CodecCode.Fits (code : CodecCode) (fields : Fields) : Prop where
  written : code.encode.members ⊆ fields.members
  filled : fields.members ⊆ code.decode.members

section

variable {T : Member → Type} {members written filled : List Member}

/-- The codec that writes some fields and fills at least all of them. -/
def memberCodec (codecs : ∀ m, Codec (T m)) (hwritten : written ⊆ members)
    (hfilled : members ⊆ filled) : Codec (FieldValues T members) where
  encode v := writeMembers codecs written (v.restrict hwritten)
  decode := do
    let v ← readMembers codecs filled
    return v.restrict hfilled

/-- The codec that the code stands for, given a codec for each field. -/
def CodecCode.codec {fields : Fields} (code : CodecCode) (h : code.Fits fields)
    (codecs : ∀ m, Codec (T m)) : Codec (FieldValues T fields.members) :=
  memberCodec codecs h.written h.filled

variable {codecs : ∀ m, Codec (T m)} {hwritten : written ⊆ members} {hfilled : members ⊆ filled}

theorem readsBack_memberCodec (ewritten : written = members) (efilled : filled = members)
    (h : ∀ m ∈ members, (codecs m).ReadsBack) :
    (memberCodec codecs hwritten hfilled).ReadsBack := by
  subst ewritten efilled
  intro v rest
  exact bind_eq_ok_iff.2 ⟨v, rest, readMembers_writeMembers h v, rfl⟩

theorem exact_memberCodec (ewritten : written = members) (efilled : filled = members)
    (hdistinct : members.Nodup) (h : ∀ m ∈ members, (codecs m).Exact) :
    (memberCodec codecs hwritten hfilled).Exact := by
  subst ewritten efilled
  intro input v rest hread
  obtain ⟨w, behind, hw, hpure⟩ := bind_eq_ok_iff.1 hread
  obtain ⟨rfl, rfl⟩ := pure_eq_ok_iff.1 hpure
  exact eq_writeMembers_of_readMembers hdistinct h hw

end

theorem members_encodeBody (fields : Fields) : fields.encodeBody.members = fields.members := by
  cases fields <;> rfl

theorem members_decodeBody (fields : Fields) : fields.decodeBody.members = fields.members := by
  cases fields with
  | unit | named names => rfl
  | unnamed count => simp [Fields.decodeBody, DecodeBody.members, Fields.members]

/-- **The derived codec is as good as those of the fields.** For every struct there is code. What it
says is to write and to read the fields in the order of their declaration, each one once and by the
codec of its type, up to the first failure. If each field is read back, whatever follows, so is the
struct; and if reading each field takes exactly what is written for it, so does reading the struct,
where no two fields have one name. Enums and unions are rejected. -/
theorem derived_codec_faithful (item : Item) :
    (∀ fields, item.body = .struct fields → ∃ code, ∃ h : code.Fits fields,
      CodecCode.ofItem item = .ok code ∧ code.Spelled item ∧
        (∀ ms, WritesFields ms code.encode.tokens ↔ ms = fields.members) ∧
        (∀ ms, ReadsFields ms code.decode.tokens ↔ ms = fields.members) ∧
        code.encode.members = fields.members ∧ code.decode.members = fields.members ∧
        ∀ (T : Member → Type) (codecs : ∀ m, Codec (T m)),
          ((∀ m ∈ fields.members, (codecs m).ReadsBack) → (code.codec h codecs).ReadsBack) ∧
          (fields.Distinct → (∀ m ∈ fields.members, (codecs m).Exact) →
            (code.codec h codecs).Exact)) ∧
    (∀ variants, item.body = .enum variants → CodecCode.ofItem item = .error .codecOfEnum) ∧
    (item.body = .union → CodecCode.ofItem item = .error .codecOfUnion) := by
  refine ⟨fun fields hbody => ?_, fun variants hbody => ?_, fun hbody => ?_⟩
  · have hwritten := members_encodeBody fields
    have hfilled := members_decodeBody fields
    have hcode : CodecCode.ofItem item =
        .ok ⟨item.name, item.generics, fields.encodeBody, fields.decodeBody⟩ := by
      rw [CodecCode.ofItem, hbody]
    refine ⟨_, ⟨fun m hm => hwritten ▸ hm, fun m hm => hfilled ▸ hm⟩, hcode,
      CodecCode.spelled_of_ofItem hcode, fun ms => ?_, fun ms => ?_, hwritten, hfilled,
      fun T codecs => ⟨readsBack_memberCodec hwritten hfilled, fun hdistinct =>
        exact_memberCodec hwritten hfilled hdistinct.nodup_members⟩⟩
    · rw [EncodeBody.writesFields_tokens_iff, hwritten]
    · rw [DecodeBody.readsFields_tokens_iff, hfilled]
  · rw [CodecCode.ofItem, hbody]
  · rw [CodecCode.ofItem, hbody]

/-! ## Structs of two fields -/

/-- The types of two fields, one of which is `first`. -/
def PairField (first : Member) (α β : Type) (m : Member) : Type :=
  if m = first then α else β

section

variable {first : Member} {α β : Type}

/-- Their codecs. -/
def pairCodecs (first : Member) (c : Codec α) (d : Codec β) (m : Member) :
    Codec (PairField first α β m) :=
  if h : m = first then cast (congrArg Codec (if_pos h).symm) c
  else cast (congrArg Codec (if_neg h).symm) d

theorem forall_pairCodecs {P : ∀ α : Type, Codec α → Prop} {c : Codec α} {d : Codec β}
    (hc : P α c) (hd : P β d) (m : Member) : P _ (pairCodecs first c d m) := by
  have hcast : ∀ {γ δ : Type} {c : Codec γ} (h : γ = δ), P γ c →
      P δ (cast (congrArg Codec h) c) := by
    rintro γ _ c rfl hc
    exact hc
  unfold pairCodecs
  split
  · next h => exact hcast (if_pos h).symm hc
  · next h => exact hcast (if_neg h).symm hd

end

theorem readsBack_byte : (Codec.ofInstances UInt8).ReadsBack :=
  fun _ _ => rfl

theorem exact_byte : (Codec.ofInstances UInt8).Exact := by
  intro input b rest h
  cases input with
  | nil => cases h
  | cons b' behind =>
    cases h
    rfl

theorem readsBack_opcode : (Codec.ofInstances Opcode).ReadsBack := by
  intro o rest
  change (Decode.decode : Decoder Opcode) (o.byte :: rest) = (.ok o, rest)
  simp only [Decode.decode, Opcode.ofByte?_byte]

theorem exact_opcode : (Codec.ofInstances Opcode).Exact := by
  intro input o rest h
  cases input with
  | nil => cases h
  | cons b behind =>
    simp only [Codec.ofInstances, Decode.decode] at h
    split at h
    · next o' ho =>
      cases h
      rw [← Opcode.ofByte?_eq_some_iff.1 ho]
      rfl
    · cases h

/-- A byte and an opcode, by their positions: the struct has a codec, and a good one. Behind the
byte an unknown opcode is the first failure. -/
theorem derived_codec_faithful_byte_opcode :
    let item : Item := { name := "Mark", body := .struct (.unnamed 2) }
    let codecs := pairCodecs (.position 0) (.ofInstances UInt8) (.ofInstances Opcode)
    ∃ code, ∃ h : code.Fits (.unnamed 2), CodecCode.ofItem item = .ok code ∧
      WritesFields [.position 0, .position 1] code.encode.tokens ∧
      ReadsFields [.position 0, .position 1] code.decode.tokens ∧
      (code.codec h codecs).ReadsBack ∧ (code.codec h codecs).Exact ∧
      (code.codec h codecs).decode [7, 0xff, 9] = (.error (.unknownOpcode 0xff), [9]) ∧
      CodecCode.ofItem { item with body := .enum [] } = .error .codecOfEnum ∧
      CodecCode.ofItem { item with body := .union } = .error .codecOfUnion := by
  intro item codecs
  obtain ⟨code, h, hcode, -, hwrites, hfills, -, -, hfaithful⟩ :=
    (derived_codec_faithful item).1 _ rfl
  obtain ⟨hreads, hexact⟩ := hfaithful _ codecs
  refine ⟨code, h, hcode, (hwrites _).2 rfl, (hfills _).2 rfl, hreads fun m _ => ?_,
    hexact nofun fun m _ => ?_, ?_, (derived_codec_faithful _).2.1 _ rfl,
    (derived_codec_faithful _).2.2 rfl⟩
  · exact forall_pairCodecs (P := fun _ c => c.ReadsBack) readsBack_byte readsBack_opcode m
  · exact forall_pairCodecs (P := fun _ c => c.Exact) exact_byte exact_opcode m
  · cases hcode
    rfl

/-! ## Records -/

def recordFields : Fields :=
  .named ["opcode", "operand"]

/-- The declaration of records. -/
def recordItem : Item where
  name := "RawInstruction"
  body := .struct recordFields

/-- The types of the fields of a record. -/
def RecordField : Member → Type :=
  PairField (.named "opcode") Opcode String

/-- Their codecs. -/
def recordCodecs : ∀ m, Codec (RecordField m) :=
  pairCodecs (.named "opcode") (.ofInstances Opcode) (.ofInstances String)

/-- The values of the fields of a record. -/
def recordValues (r : Record) : FieldValues RecordField recordFields.members :=
  .cons (m := .named "opcode") r.opcode (.cons (m := .named "operand") r.operand .empty)

/-- The record with these values for its fields. -/
def recordOf (v : FieldValues RecordField recordFields.members) : Record :=
  ⟨v.head, v.tail.head⟩

theorem decode_record_eq : (Decode.decode : Decoder Record) = do
    let opcode ← Decode.decode
    let operand ← Decode.decode
    return ⟨opcode, operand⟩ := by
  funext bytes
  rw [bind_eq]
  unfold instDecodeRecord
  dsimp only
  generalize (Decode.decode : Decoder Opcode) bytes = read
  obtain ⟨failure | opcode, rest⟩ := read
  · rfl
  · dsimp only
    rw [bind_eq]
    generalize (Decode.decode : Decoder String) rest = read
    obtain ⟨failure | operand, rest⟩ := read <;> rfl

/-- **The codec of records is the one derived for them.** -/
theorem record_codec : ∃ code, ∃ h : code.Fits recordFields,
    CodecCode.ofItem recordItem = .ok code ∧
      (∀ r, (code.codec h recordCodecs).encode (recordValues r) = Encode.toBytes r) ∧
      recordOf <$> (code.codec h recordCodecs).decode = (Decode.decode : Decoder Record) := by
  refine ⟨_, ⟨List.Subset.refl _, List.Subset.refl _⟩, rfl, fun r => ?_, ?_⟩
  · change Encode.toBytes r.opcode ++ (Encode.toBytes r.operand ++ []) = _
    simp [Encode.toBytes, Encode.encode, ByteSink.write]
  · rw [decode_record_eq]
    change recordOf <$> (do
      let v ← readMembers recordCodecs [.named "opcode", .named "operand"]
      return v.restrict (List.Subset.refl _)) = _
    simp only [readMembers, bind_assoc, pure_bind, map_bind, map_pure]
    rfl

end StackMachine.Derive
