import Mathlib.Data.List.Forall2
import StackMachine.Derive.Display
import StackMachine.Proofs.Spelling

/-!
# Items and their annotations

For which items there is code that writes their messages, why there is none for the others, and
what the code takes apart.

* `FirstError`, `Declares`: what attributes declare; **`messageOf_eq_iff`**.
* `Item.Annotated`, `Item.Offends`: the items that are accepted, and what is wrong with the others.
* `Item.Alike`: items that differ in attributes that do not count.
* `DisplayCode.Covers`: the code has a case for each variant, with a pattern and a call for its
  fields, and is spelled like that.
* **`display_follows_annotations`**: all of this describes `DisplayCode.ofItem`.
-/

namespace StackMachine.Derive

/-! ## Declared messages -/

/-- The first `error` attribute is written in this form. -/
def FirstError (attributes : List Attribute) (form : AttributeForm) : Prop :=
  ∃ before after, attributes = before ++ ⟨"error", form⟩ :: after ∧ ∀ a ∈ before, a.path ≠ "error"

/-- What the attributes of a type or a variant declare: its message, or why there is none. -/
inductive Declares (owner name : String) (attributes : List Attribute) :
    Except Rejection String → Prop
  | message {text : String} (h : FirstError attributes (.list [.text text])) :
      Declares owner name attributes (.ok text)
  | missing (h : ∀ a ∈ attributes, a.path ≠ "error") :
      Declares owner name attributes (.error (.missingMessage owner name))
  | notListed {form : AttributeForm} (h : FirstError attributes form)
      (hform : ∀ arguments, form ≠ .list arguments) :
      Declares owner name attributes (.error .messageNotListed)
  | notText (h : FirstError attributes (.list [.literal])) :
      Declares owner name attributes (.error .messageNotText)
  | notLiteral {arguments : List Argument} (h : FirstError attributes (.list arguments))
      (htext : ∀ text, arguments ≠ [.text text]) (hliteral : arguments ≠ [.literal]) :
      Declares owner name attributes (.error .messageNotLiteral)

/-- The message that an `error` attribute in this form declares. -/
def AttributeForm.message : AttributeForm → Except Rejection String
  | list arguments => messageOfArguments arguments
  | value _ | bare => .error .messageNotListed

section

variable {owner name text : String} {attributes attributes' : List Attribute}
  {form : AttributeForm} {r : Except Rejection String}

theorem firstError_iff : FirstError attributes form ↔
    attributes.find? (·.path == "error") = some ⟨"error", form⟩ := by
  rw [List.find?_eq_some_iff_append]
  simp [FirstError]

theorem exists_firstError_or (attributes : List Attribute) :
    (∃ form, FirstError attributes form) ∨ ∀ a ∈ attributes, a.path ≠ "error" := by
  cases h : attributes.find? (·.path == "error") with
  | none =>
    right
    simpa using List.find?_eq_none.1 h
  | some a =>
    obtain ⟨path, form⟩ := a
    have hpath : path = "error" := by simpa using List.find?_some h
    exact .inl ⟨form, firstError_iff.2 (hpath ▸ h)⟩

theorem messageOf_of_firstError (h : FirstError attributes form) :
    messageOf attributes owner name = form.message := by
  rw [messageOf, firstError_iff.1 h]
  cases form <;> rfl

theorem messageOf_of_forall (h : ∀ a ∈ attributes, a.path ≠ "error") :
    messageOf attributes owner name = .error (.missingMessage owner name) := by
  have hnone : attributes.find? (·.path == "error") = none :=
    List.find?_eq_none.2 fun a ha => by simpa using h a ha
  rw [messageOf, hnone]

theorem declares_messageOf (owner name : String) (attributes : List Attribute) :
    Declares owner name attributes (messageOf attributes owner name) := by
  obtain ⟨form, h⟩ | h := exists_firstError_or attributes
  · rw [messageOf_of_firstError h]
    cases form with
    | value | bare => exact .notListed h nofun
    | list arguments =>
      change Declares owner name attributes (messageOfArguments arguments)
      unfold messageOfArguments
      split
      · exact .message h
      · exact .notText h
      · next htext hliteral => exact .notLiteral h htext hliteral
  · rw [messageOf_of_forall h]
    exact .missing h

/-- **The first `error` attribute decides**, and there is one answer. -/
theorem messageOf_eq_iff : messageOf attributes owner name = r ↔
    Declares owner name attributes r := by
  constructor
  · rintro rfl
    exact declares_messageOf owner name attributes
  · intro h
    cases h with
    | missing h => exact messageOf_of_forall h
    | message h | notText h => exact messageOf_of_firstError h
    | @notListed form h hform =>
      rw [messageOf_of_firstError h]
      cases form with
      | list arguments => exact absurd rfl (hform arguments)
      | value | bare => rfl
    | @notLiteral arguments h htext hliteral =>
      rw [messageOf_of_firstError h]
      change messageOfArguments arguments = _
      unfold messageOfArguments
      split
      · next text => exact absurd rfl (htext text)
      · exact absurd rfl hliteral
      · rfl

theorem declares_ok_iff : Declares owner name attributes (.ok text) ↔
    FirstError attributes (.list [.text text]) :=
  ⟨fun h => by cases h; assumption, .message⟩

end

/-! ## Items -/

/-- Whatever is to have a message declares one: the struct, or each variant. -/
def Item.Annotated (item : Item) : Prop :=
  match item.body with
  | .struct _ => ∃ text, FirstError item.attributes (.list [.text text])
  | .enum variants => ∀ v ∈ variants, ∃ text, FirstError v.attributes (.list [.text text])
  | .union => False

/-- What is wrong with an item. Of the variants, the first one counts that declares no message. -/
inductive Item.Offends (item : Item) : Rejection → Prop
  | union (h : item.body = .union) : Offends item .displayOfUnion
  | struct {fields : Fields} {e : Rejection} (h : item.body = .struct fields)
      (he : Declares "type" item.name item.attributes (.error e)) : Offends item e
  | variant {before after : List Variant} {v : Variant} {e : Rejection}
      (h : item.body = .enum (before ++ v :: after))
      (hbefore : ∀ u ∈ before, ∃ text, FirstError u.attributes (.list [.text text]))
      (he : Declares "variant" v.name v.attributes (.error e)) : Offends item e

/-- Lists of attributes whose first `error` attributes are written in one form. Behind these, and
for all other attributes, they may differ. -/
def SameFirstError (attributes attributes' : List Attribute) : Prop :=
  ∀ form, FirstError attributes form ↔ FirstError attributes' form

/-- Variants that differ in attributes that do not count. -/
structure Variant.Alike (v v' : Variant) : Prop where
  name : v.name = v'.name
  fields : v.fields = v'.fields
  attributes : SameFirstError v.attributes v'.attributes

/-- Items that differ in attributes that do not count; those of an enum itself never do. -/
structure Item.Alike (item item' : Item) : Prop where
  name : item.name = item'.name
  generics : item.generics = item'.generics
  body : match item.body, item'.body with
    | .struct fields, .struct fields' =>
      fields = fields' ∧ SameFirstError item.attributes item'.attributes
    | .enum variants, .enum variants' => List.Forall₂ Variant.Alike variants variants'
    | .union, .union => True
    | _, _ => False

/-! ## Patterns and calls for fields -/

/-- A pattern with these tokens takes the fields apart and binds these names: nothing stands for no
fields, one entry for each position, and two dots for the named fields that are not bound. -/
def Fields.Takes (bound : List String) (tokens : List Token) : Fields → Prop
  | unit => bound = [] ∧ tokens = []
  | named names => bound.Sublist names ∧ tokens =
      spelled "\x7b" ++ bound.flatMap (fun name => .word name :: spelled ",") ++ spelled "..\x7d"
  | unnamed count => ∃ (entries : List (Option String)) (inner : List Token),
      entries.length = count ∧ entries.filterMap id = bound ∧
        (∀ i name, entries[i]? = some (some name) → name = positionName i) ∧
        Separated (entries.map fun entry => [.word (entry.getD "_")]) inner ∧
        tokens = spelled "(" ++ inner ++ spelled ")"

/-- A call with these tokens writes a message in this format to `f`, and passes these names along,
each one under itself. Where there are no fields, not even a comma stands behind the format. -/
def Fields.Calls (format : String) (passed : List String) (tokens : List Token) : Fields → Prop
  | unit => passed = [] ∧ tokens = spelled "write!(f," ++ [.text format] ++ spelled ")"
  | named _ | unnamed _ => ∃ inner,
      Separated (passed.map fun name => .word name :: spelled "=" ++ [.word name]) inner ∧
        tokens = spelled "write!(f," ++ [.text format] ++ spelled "," ++ inner ++ spelled ")"

/-- The pattern and the call are those for the message that the attributes declare; they fit the
fields, and what is bound is what is passed along. -/
structure Covers (attributes : List Attribute) (fields : Fields) (pattern : Pattern)
    (call : WriteCall) : Prop where
  declared : ∃ text, FirstError attributes (.list [.text text]) ∧
    fields.display text = (pattern, call)
  takes : fields.Takes pattern.bound pattern.tokens
  passes : call.arguments.getD [] = pattern.bound
  calls : fields.Calls call.format pattern.bound call.tokens

/-- A case for a variant, which it names. -/
structure Arm.Covers (v : Variant) (arm : Arm) : Prop where
  variant : arm.variant = v.name
  covers : Derive.Covers v.attributes v.fields arm.pattern arm.call
  tokens : arm.tokens = spelled "Self::" ++ [.word v.name] ++ arm.pattern.tokens ++
    spelled "=>" ++ arm.call.tokens ++ spelled ","

/-- The body is spelled like this, around its patterns and calls. -/
def DisplayBody.Spelled (body : DisplayBody) : Prop :=
  match body with
  | single pattern call => body.tokens =
      spelled "let Self" ++ pattern.tokens ++ spelled "= self;" ++ call.tokens
  | cases arms => body.tokens =
      spelled "match self \x7b" ++ (arms.map Arm.tokens).flatten ++ spelled "\x7d"

/-- The code is spelled like this, around its body. -/
def DisplayCode.Spelled (code : DisplayCode) (item : Item) : Prop :=
  ∃ display error,
    Implements "::std::fmt::Display" item.name item.generics
      (spelled "fn fmt(&self, f: &mut ::std::fmt::Formatter<\x27_>) -> ::std::fmt::Result \x7b" ++
        code.body.tokens ++ spelled "\x7d") display ∧
    Implements "::std::error::Error" item.name item.generics [] error ∧
    code.tokens = display ++ error

/-- The code writes an item: it takes the struct, or has one case for each variant, in the order of
their declaration. -/
structure DisplayCode.Covers (item : Item) (code : DisplayCode) : Prop where
  name : code.name = item.name
  generics : code.generics = item.generics
  body : match item.body, code.body with
    | .struct fields, .single pattern call => Derive.Covers item.attributes fields pattern call
    | .enum variants, .cases arms => List.Forall₂ Arm.Covers variants arms
    | _, _ => False
  bodySpelled : code.body.Spelled
  codeSpelled : code.Spelled item

section

variable {attributes attributes' : List Attribute} {item item' : Item} {e : Rejection}

theorem SameFirstError.messageOf_eq (h : SameFirstError attributes attributes')
    (owner name : String) :
    messageOf attributes owner name = messageOf attributes' owner name := by
  -- where there is no `error` attribute, the other list has none either
  obtain ⟨form, hform⟩ | hnone := exists_firstError_or attributes
  · rw [messageOf_of_firstError hform, messageOf_of_firstError ((h form).1 hform)]
  · obtain ⟨form, hform⟩ | hnone' := exists_firstError_or attributes'
    · obtain ⟨before, after, rfl, -⟩ := (h form).2 hform
      exact absurd rfl (hnone ⟨"error", form⟩ (by simp))
    · rw [messageOf_of_forall hnone, messageOf_of_forall hnone']

theorem takes_display (text : String) (fields : Fields) :
    fields.Takes (fields.display text).1.bound (fields.display text).1.tokens := by
  cases fields with
  | unit => exact ⟨rfl, rfl⟩
  | named names =>
    -- the tokens differ in where the two dots belong to
    exact ⟨List.filter_sublist, congrArg (Token.mark '\x7b' :: ·) (List.append_assoc ..)⟩
  | unnamed count =>
    refine ⟨_, _, by rw [List.length_map, List.length_range], rfl, fun i name hname => ?_,
      separated_commas _, rfl⟩
    rw [List.getElem?_map] at hname
    obtain ⟨j, hj, hentry⟩ := Option.map_eq_some_iff.1 hname
    obtain ⟨-, rfl⟩ : i < count ∧ i = j := by simpa using List.getElem?_eq_some_iff.1 hj
    split at hentry
    · exact (Option.some.inj hentry).symm
    · cases hentry

theorem WriteCall.tokens_of_none (format : String) : WriteCall.tokens ⟨format, none⟩ =
    spelled "write!(f," ++ [.text format] ++ spelled ")" := rfl

theorem WriteCall.tokens_of_some (format : String) (names : List String) :
    WriteCall.tokens ⟨format, some names⟩ = spelled "write!(f," ++ [.text format] ++ spelled "," ++
      Token.commas (names.map fun name => .word name :: spelled "=" ++ [.word name]) ++
      spelled ")" := rfl

theorem calls_display (text : String) (fields : Fields) :
    fields.Calls (fields.display text).2.format (fields.display text).1.bound
      (fields.display text).2.tokens := by
  rw [← fields.arguments_display text]
  cases fields with
  | unit => exact ⟨rfl, WriteCall.tokens_of_none text⟩
  | named | unnamed => exact ⟨_, separated_commas _, WriteCall.tokens_of_some ..⟩

theorem covers_display {text : String} (fields : Fields)
    (h : FirstError attributes (.list [.text text])) :
    Covers attributes fields (fields.display text).1 (fields.display text).2 :=
  ⟨⟨text, h, rfl⟩, takes_display text fields, fields.arguments_display text,
    calls_display text fields⟩

theorem Arm.tokens_eq (arm : Arm) : arm.tokens = spelled "Self::" ++ [.word arm.variant] ++
    arm.pattern.tokens ++ spelled "=>" ++ arm.call.tokens ++ spelled "," := rfl

theorem DisplayBody.spelled_tokens (body : DisplayBody) : body.Spelled := by
  cases body <;> rfl

/-- **The code is generated as it is spelled.** -/
theorem DisplayCode.spelled_tokens {code : DisplayCode} (hname : code.name = item.name)
    (hgenerics : code.generics = item.generics) : code.Spelled item := by
  have hdisplay : spelled "::std::fmt::Display" = Token.rooted ["std", "fmt", "Display"] := by
    decide +kernel
  have herror : spelled "::std::error::Error" = Token.rooted ["std", "error", "Error"] := by
    decide +kernel
  have hfront :
      spelled "fn fmt(&self, f: &mut ::std::fmt::Formatter<\x27_>) -> ::std::fmt::Result \x7b" =
        [.word "fn", .word "fmt"] ++ Token.parens ([.mark '&', .word "self", .mark ',',
          .word formatterName, .mark ':', .mark '&', .word "mut"] ++
          Token.rooted ["std", "fmt", "Formatter"] ++ Token.angles [.mark '\x27', .word "_"]) ++
        Token.marks "->" ++ Token.rooted ["std", "fmt", "Result"] ++ [.mark '\x7b'] := by
    decide +kernel
  have hend : spelled "\x7d" = [.mark '\x7d'] := rfl
  refine ⟨_, _, implements_implementation, implements_implementation, ?_⟩
  rw [DisplayCode.tokens, hname, hgenerics, hdisplay, herror, hfront, hend]
  simp only [Token.braces, List.append_assoc, List.cons_append, List.nil_append]

namespace DisplayCode

variable {v : Variant} {a : Arm} {vs : List Variant} {as : List Arm}

theorem arm_eq_ok_iff : arm v = .ok a ↔
    ∃ text, FirstError v.attributes (.list [.text text]) ∧
      a = ⟨v.name, (v.fields.display text).1, (v.fields.display text).2⟩ := by
  unfold arm
  split
  · next e he =>
    refine ⟨nofun, fun ⟨text, h, _⟩ => ?_⟩
    rw [messageOf_eq_iff.2 (declares_ok_iff.2 h)] at he
    cases he
  · next message hmessage =>
    have hfirst := declares_ok_iff.1 (messageOf_eq_iff.1 hmessage)
    constructor
    · intro h
      exact ⟨message, hfirst, (Except.ok.inj h).symm⟩
    · rintro ⟨text, h, rfl⟩
      rw [messageOf_eq_iff.2 (declares_ok_iff.2 h)] at hmessage
      cases hmessage
      rfl

theorem arm_eq_error_iff :
    arm v = .error e ↔ Declares "variant" v.name v.attributes (.error e) := by
  rw [← messageOf_eq_iff, arm]
  split
  · next e' he => rw [he, Except.error.injEq, Except.error.injEq]
  · next message hmessage =>
    rw [hmessage]
    exact ⟨nofun, nofun⟩

theorem arms_eq_ok_iff : arms vs = .ok as ↔ List.Forall₂ (fun v a => arm v = .ok a) vs as := by
  induction vs generalizing as with
  | nil => simp [arms, eq_comm]
  | cons v vs ih =>
    rw [arms, List.forall₂_cons_left_iff]
    cases hv : arm v with
    | error e => simp
    | ok a =>
      simp only [← ih, Except.ok.injEq]
      cases hvs : arms vs with
      | error e => simp
      | ok rest => simp [eq_comm]

theorem arms_cons_eq_error_iff : arms (v :: vs) = .error e ↔
    arm v = .error e ∨ (∃ a, arm v = .ok a) ∧ arms vs = .error e := by
  rw [arms]
  cases arm v with
  | error e' => simp
  | ok a => cases arms vs <;> simp

theorem arms_eq_error_iff : arms vs = .error e ↔ ∃ before v after, vs = before ++ v :: after ∧
    (∀ u ∈ before, ∃ a, arm u = .ok a) ∧ arm v = .error e := by
  induction vs with
  | nil => simp [arms]
  | cons v vs ih =>
    -- the variants in front of the offending one are none, or they begin with `v`
    rw [arms_cons_eq_error_iff, ih]
    constructor
    · rintro (hv | ⟨ha, before, w, after, rfl, hbefore, hw⟩)
      · exact ⟨[], v, vs, rfl, nofun, hv⟩
      · exact ⟨v :: before, w, after, rfl, List.forall_mem_cons.2 ⟨ha, hbefore⟩, hw⟩
    · rintro ⟨before, w, after, heq, hbefore, hw⟩
      cases before with
      | nil =>
        obtain ⟨rfl, rfl⟩ := List.cons.inj heq
        exact .inl hw
      | cons u before =>
        obtain ⟨rfl, rfl⟩ := List.cons.inj heq
        obtain ⟨ha, hbefore⟩ := List.forall_mem_cons.1 hbefore
        exact .inr ⟨ha, before, w, after, rfl, hbefore, hw⟩

end DisplayCode

/-! ## Code for items -/

namespace DisplayCode

theorem bodyOf_eq_error_iff : bodyOf item = .error e ↔ item.Offends e := by
  unfold bodyOf
  constructor
  · intro h
    split at h
    · next variants hbody =>
      split at h
      · next e' he =>
        cases h
        obtain ⟨before, v, after, rfl, hbefore, hv⟩ := arms_eq_error_iff.1 he
        refine .variant hbody (fun u hu => ?_) (arm_eq_error_iff.1 hv)
        obtain ⟨a, ha⟩ := hbefore u hu
        obtain ⟨text, htext, -⟩ := arm_eq_ok_iff.1 ha
        exact ⟨text, htext⟩
      · cases h
    · next fields hbody =>
      split at h
      · next e' he =>
        cases h
        exact .struct hbody (messageOf_eq_iff.1 he)
      · cases h
    · next hbody =>
      cases h
      exact .union hbody
  · intro h
    cases h with
    | union hbody => rw [hbody]
    | struct hbody he => simp only [hbody, messageOf_eq_iff.2 he]
    | @variant before after v _ hbody hbefore he =>
      have harms : arms (before ++ v :: after) = .error e :=
        arms_eq_error_iff.2 ⟨before, v, after, rfl, fun u hu => by
          obtain ⟨text, htext⟩ := hbefore u hu
          exact ⟨_, arm_eq_ok_iff.2 ⟨text, htext, rfl⟩⟩, arm_eq_error_iff.2 he⟩
      simp only [hbody, harms]

theorem ofItem_eq_error_iff : ofItem item = .error e ↔ item.Offends e := by
  rw [← bodyOf_eq_error_iff, ofItem]
  cases bodyOf item <;> simp

theorem covers_of_ofItem {code : DisplayCode} (h : ofItem item = .ok code) :
    code.Covers item := by
  have hbody : bodyOf item = .ok code.body ∧ code.name = item.name ∧
      code.generics = item.generics := by
    unfold ofItem at h
    split at h
    · cases h
    · next body hbody =>
      cases h
      exact ⟨hbody, rfl, rfl⟩
  obtain ⟨hbody, hname, hgenerics⟩ := hbody
  refine ⟨hname, hgenerics, ?_, code.body.spelled_tokens, spelled_tokens hname hgenerics⟩
  unfold bodyOf at hbody
  split at hbody
  · next variants hvariants =>
    split at hbody
    · cases hbody
    · next as has =>
      rw [hvariants, ← Except.ok.inj hbody]
      refine (arms_eq_ok_iff.1 has).imp fun v a ha => ?_
      obtain ⟨text, htext, rfl⟩ := arm_eq_ok_iff.1 ha
      exact ⟨rfl, covers_display v.fields htext, Arm.tokens_eq _⟩
  · next fields hfields =>
    split at hbody
    · cases hbody
    · next message hmessage =>
      rw [hfields, ← Except.ok.inj hbody]
      exact covers_display fields (declares_ok_iff.1 (messageOf_eq_iff.1 hmessage))
  · cases hbody

theorem Covers.annotated {code : DisplayCode} (h : code.Covers item) : item.Annotated := by
  have hbody := h.body
  unfold Item.Annotated
  split at hbody
  · next fields pattern call hitem hcode =>
    obtain ⟨text, htext, -⟩ := hbody.declared
    rw [hitem]
    exact ⟨text, htext⟩
  · next variants arms hitem hcode =>
    rw [hitem]
    refine ((List.forall₂_and_left _ _).1 (hbody.imp fun v a ha => ⟨?_, ha⟩)).1
    obtain ⟨text, htext, -⟩ := ha.covers.declared
    exact ⟨text, htext⟩
  · exact hbody.elim

theorem not_offends_of_annotated (h : item.Annotated) : ¬ item.Offends e := by
  unfold Item.Annotated at h
  intro he
  have hdeclared : ∀ {owner name : String} {attributes : List Attribute},
      (∃ text, FirstError attributes (.list [.text text])) →
        ¬ Declares owner name attributes (.error e) := by
    rintro owner name attributes ⟨text, htext⟩ he
    have hok : messageOf attributes owner name = .ok text := messageOf_eq_iff.2 (.message htext)
    exact absurd (hok.symm.trans (messageOf_eq_iff.2 he)) nofun
  cases he with
  | union hbody => rw [hbody] at h; exact h
  | struct hbody he =>
    rw [hbody] at h
    exact hdeclared h he
  | @variant before after v _ hbody hbefore he =>
    rw [hbody] at h
    exact hdeclared (h v (by simp)) he

theorem exists_ofItem_iff : (∃ code, ofItem item = .ok code) ↔ item.Annotated := by
  constructor
  · rintro ⟨code, hcode⟩
    exact (covers_of_ofItem hcode).annotated
  · intro h
    cases hcode : ofItem item with
    | error e => exact absurd (ofItem_eq_error_iff.1 hcode) (not_offends_of_annotated h)
    | ok code => exact ⟨code, rfl⟩

/-! ## Attributes that do not count -/

theorem arms_eq_of_alike {vs vs' : List Variant} (h : List.Forall₂ Variant.Alike vs vs') :
    arms vs = arms vs' := by
  induction h with
  | nil => rfl
  | @cons v v' vs vs' hv h ih =>
    have harm : arm v = arm v' := by
      rw [arm, arm, hv.attributes.messageOf_eq, hv.name, hv.fields]
    rw [arms, arms, harm, ih]

theorem ofItem_eq_of_alike (h : item.Alike item') : ofItem item = ofItem item' := by
  obtain ⟨hname, hgenerics, hbody⟩ := h
  have hbodies : bodyOf item = bodyOf item' := by
    unfold bodyOf
    split at hbody
    · next fields fields' hitem hitem' =>
      obtain ⟨rfl, hattributes⟩ := hbody
      rw [hitem, hitem', hattributes.messageOf_eq, hname]
    · next variants variants' hitem hitem' =>
      simp only [hitem, hitem', arms_eq_of_alike hbody]
    · next hitem hitem' => rw [hitem, hitem']
    · exact hbody.elim
  rw [ofItem, ofItem, hbodies, hname, hgenerics]

end DisplayCode

end

/-- **Code follows annotations.** There is code for an item exactly if it is a struct or an enum
and the struct, or each variant, has a first `error` attribute with one string literal in
parentheses. Otherwise the answer is what is wrong with the item, of its variants with the first
one that declares no message. Attributes behind the first `error` attribute and attributes with
other paths make no difference. What is generated takes the struct apart, or has a case for each
variant, in the order of their declaration and under its name, with a pattern for its fields that
binds the names that the call passes along, and with nothing else. -/
theorem display_follows_annotations (item : Item) :
    ((∃ code, DisplayCode.ofItem item = .ok code) ↔ item.Annotated) ∧
      (∀ e, DisplayCode.ofItem item = .error e ↔ item.Offends e) ∧
      (∀ item', item.Alike item' → DisplayCode.ofItem item = DisplayCode.ofItem item') ∧
      ∀ code, DisplayCode.ofItem item = .ok code → code.Covers item :=
  ⟨DisplayCode.exists_ofItem_iff, fun _ => DisplayCode.ofItem_eq_error_iff,
    fun _ => DisplayCode.ofItem_eq_of_alike, fun _ => DisplayCode.covers_of_ofItem⟩

/-- Variants of all shapes, one of them with attributes that do not count: the code covers the enum,
and is the same without these attributes. With a variant in front whose attribute has no
parentheses, the enum is rejected for that. -/
theorem display_follows_annotations_three_shapes :
    let empty : Variant := ⟨"Empty", [⟨"error", .list [.text "empty"]⟩], .unit⟩
    let noted : Variant := { empty with attributes := [⟨"doc", .value (.text "Nothing.")⟩,
      ⟨"error", .list [.text "empty"]⟩, ⟨"error", .bare⟩] }
    let others : List Variant := [
      ⟨"At", [⟨"error", .list [.text "\x7bline\x7d"]⟩], .named ["line", "column"]⟩,
      ⟨"Both", [⟨"error", .list [.text "\x7b1\x7d"]⟩], .unnamed 2⟩]
    let bare : Variant := ⟨"Bare", [⟨"error", .bare⟩, ⟨"error", .list [.text "late"]⟩], .unit⟩
    let item variants : Item := ⟨"Fault", [], [], .enum variants⟩
    let code : DisplayCode := ⟨"Fault", [], .cases [⟨"Empty", .unit, "empty", none⟩,
      ⟨"At", .named ["line"], "\x7bline\x7d", some ["line"]⟩,
      ⟨"Both", .positional [none, some "f1"], "\x7bf1\x7d", some ["f1"]⟩]⟩
    DisplayCode.ofItem (item (noted :: others)) = .ok code ∧
      (item (noted :: others)).Annotated ∧ code.Covers (item (noted :: others)) ∧
      (item (noted :: others)).Alike (item (empty :: others)) ∧
      DisplayCode.ofItem (item (empty :: others)) = .ok code ∧
      (item (bare :: noted :: others)).Offends .messageNotListed := by
  intro empty noted others bare item code
  have hcode : DisplayCode.ofItem (item (noted :: others)) = .ok code := by decide +kernel
  have hsame : SameFirstError noted.attributes empty.attributes := by
    intro form
    rw [firstError_iff, firstError_iff]
    rfl
  have halike : (item (noted :: others)).Alike (item (empty :: others)) :=
    ⟨rfl, rfl, .cons ⟨rfl, rfl, hsame⟩ ((List.forall₂_same).2 fun _ _ =>
      ⟨rfl, rfl, fun _ => Iff.rfl⟩)⟩
  obtain ⟨haccepted, -, hattributes, hcovers⟩ :=
    display_follows_annotations (item (noted :: others))
  obtain ⟨-, hrejected, -, -⟩ := display_follows_annotations (item (bare :: noted :: others))
  exact ⟨hcode, haccepted.1 ⟨code, hcode⟩, hcovers code hcode, halike,
    (hattributes _ halike).symm.trans hcode, (hrejected _).1 (by decide +kernel)⟩

end StackMachine.Derive
