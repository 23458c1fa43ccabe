import StackMachine.Derive.BinaryCodec
import StackMachine.Proofs.Annotations

/-!
# Names in derived code

Derived code puts the names of fields and of type parameters next to names of its own: the parameter
that messages are written to, and the type parameter that stands for the sink. Nothing keeps them
apart.

* `DisplayCode.Captures`: some pattern binds the name that the call behind it writes to.
* `CodecCode.parameters`: the type parameters of the function that writes a value.
* **`captures_iff`**: when names clash.
* `captures_field_and_parameter`: an item of each kind for which they do.
-/

namespace StackMachine.Derive

/-! ## Names in scope -/

/-- The patterns of the code, each with the call that its names are in scope of. -/
def DisplayCode.scopes (code : DisplayCode) : List (Pattern × WriteCall) :=
  match code.body with
  | .single pattern call => [(pattern, call)]
  | .cases arms => arms.map fun a => (a.pattern, a.call)

/-- Some pattern binds the name that the call writes to, so that this is no longer the parameter. -/
def DisplayCode.Captures (code : DisplayCode) : Prop :=
  ∃ scope ∈ code.scopes, formatterName ∈ scope.1.bound

/-- The attributes and the fields of a struct, or of each variant. -/
def Item.parts (item : Item) : List (List Attribute × Fields) :=
  match item.body with
  | .struct fields => [(item.attributes, fields)]
  | .enum variants => variants.map fun v => (v.attributes, v.fields)
  | .union => []

/-- One of these fields has the name of the parameter, and the declared message refers to it. -/
def NamesFormatter (attributes : List Attribute) (fields : Fields) : Prop :=
  ∃ names text, fields = .named names ∧ formatterName ∈ names ∧
    FirstError attributes (.list [.text text]) ∧ mentions text formatterName = true

/-- The type parameters in the function that writes a value: those of the implementation around it
and the one for the sink. -/
def CodecCode.parameters (code : CodecCode) : List String :=
  code.generics ++ [sinkName]

section

variable {attributes : List Attribute} {fields : Fields} {pattern : Pattern} {call : WriteCall}
  {item : Item}

theorem positionName_ne_formatterName (i : Nat) : positionName i ≠ formatterName := by
  intro h
  have hlist : 'f' :: (toString i).toList = ['f'] := by
    simpa [positionName, formatterName] using congrArg String.toList h
  exact Nat.toDigits_ne_nil (Nat.toList_repr.symm.trans (List.cons.inj hlist).2)

theorem Covers.mem_bound_iff (h : Covers attributes fields pattern call) :
    formatterName ∈ pattern.bound ↔ NamesFormatter attributes fields := by
  obtain ⟨text, htext, hdisplay⟩ := h.declared
  have hpattern : pattern = (fields.display text).1 := by rw [hdisplay]
  subst hpattern
  cases fields with
  | unit =>
    refine ⟨nofun, ?_⟩
    rintro ⟨names, _, ⟨⟩, _⟩
  | named names =>
    have hbound : formatterName ∈ ((Fields.named names).display text).1.bound ↔
        formatterName ∈ names ∧ mentions text formatterName = true := List.mem_filter
    rw [hbound]
    constructor
    · rintro ⟨hmem, hmentions⟩
      exact ⟨names, text, rfl, hmem, htext, hmentions⟩
    · rintro ⟨_, text', ⟨⟩, hmem, htext', hmentions⟩
      -- the attributes declare one message only
      rw [firstError_iff] at htext htext'
      cases htext.symm.trans htext'
      exact ⟨hmem, hmentions⟩
  | unnamed count =>
    constructor
    · intro hmem
      obtain ⟨entry, hentry, heq⟩ := List.mem_filterMap.1 hmem
      obtain ⟨i, -, rfl⟩ := List.mem_map.1 hentry
      simp only [id] at heq
      split at heq
      · exact absurd (Option.some.inj heq) (positionName_ne_formatterName i)
      · cases heq
    · rintro ⟨names, _, ⟨⟩, _⟩

theorem DisplayCode.Covers.scopes {code : DisplayCode} (h : code.Covers item) :
    List.Forall₂ (fun part scope => Derive.Covers part.1 part.2 scope.1 scope.2) item.parts
      code.scopes := by
  have hbody := h.body
  unfold Item.parts DisplayCode.scopes
  split at hbody
  · next fields pattern call hitem hcode =>
    rw [hitem, hcode]
    exact .cons hbody .nil
  · next variants arms hitem hcode =>
    rw [hitem, hcode]
    exact List.forall₂_map_left_iff.2 (List.forall₂_map_right_iff.2
      (hbody.imp fun v a ha => ha.covers))
  · exact hbody.elim

theorem exists_mem_iff_of_forall₂ {α β : Type} {R : α → β → Prop} {p : α → Prop} {q : β → Prop}
    (hR : ∀ a b, R a b → (q b ↔ p a)) {as : List α} {bs : List β} (h : List.Forall₂ R as bs) :
    (∃ b ∈ bs, q b) ↔ ∃ a ∈ as, p a := by
  induction h with
  | nil => simp
  | cons hab h ih => simp [hR _ _ hab, ih]

end

/-- **When names clash.** The call of some pattern writes to something else than the parameter
exactly if a struct or a variant has a field of that name which its message refers to; positions
never clash. The type parameters of the function that writes a value are distinct exactly if those
of the item are and none of them has the name of the sink's. -/
theorem captures_iff (item : Item) :
    (∀ code, DisplayCode.ofItem item = .ok code →
      (code.Captures ↔ ∃ part ∈ item.parts, NamesFormatter part.1 part.2)) ∧
    ∀ code, CodecCode.ofItem item = .ok code →
      (code.parameters.Nodup ↔ item.generics.Nodup ∧ sinkName ∉ item.generics) := by
  refine ⟨fun code hcode => ?_, fun code hcode => ?_⟩
  · exact exists_mem_iff_of_forall₂ (fun _ _ h => h.mem_bound_iff)
      (DisplayCode.covers_of_ofItem hcode).scopes
  · have hgenerics : code.generics = item.generics := by
      unfold CodecCode.ofItem at hcode
      split at hcode <;> cases hcode
      rfl
    rw [CodecCode.parameters, hgenerics, List.perm_append_comm.nodup_iff, List.singleton_append,
      List.nodup_cons, and_comm]

/-- A position, a message without its field, and a field `f`: the names clash if the message refers
to that field, and not if it refers to the other one. -/
theorem captures_iff_one_variant :
    let item (message : String) : Item := ⟨"Fault", [], [], .enum [
      ⟨"Moved", [⟨"error", .list [.text "\x7b0\x7d"]⟩], .unnamed 2⟩,
      ⟨"Empty", [⟨"error", .list [.text "\x7bf\x7d"]⟩], .unit⟩,
      ⟨"Known", [⟨"error", .list [.text message]⟩], .named ["f", "g"]⟩]⟩
    let code (message field : String) : DisplayCode := ⟨"Fault", [], .cases [
      ⟨"Moved", .positional [some "f0", none], "\x7bf0\x7d", some ["f0"]⟩,
      ⟨"Empty", .unit, "\x7bf\x7d", none⟩, ⟨"Known", .named [field], message, some [field]⟩]⟩
    let pair : Item := ⟨"Pair", ["T"], [], .struct (.unnamed 1)⟩
    let codec : CodecCode := ⟨"Pair", ["T"], .fields [.position 0], .positional [0]⟩
    DisplayCode.ofItem (item "\x7bf\x7d") = .ok (code "\x7bf\x7d" "f") ∧
      (code "\x7bf\x7d" "f").Captures ∧
      DisplayCode.ofItem (item "\x7bg\x7d") = .ok (code "\x7bg\x7d" "g") ∧
      ¬ (code "\x7bg\x7d" "g").Captures ∧
      CodecCode.ofItem pair = .ok codec ∧ codec.parameters.Nodup := by
  intro item code pair codec
  have hf : DisplayCode.ofItem (item "\x7bf\x7d") = .ok (code "\x7bf\x7d" "f") := by decide +kernel
  have hg : DisplayCode.ofItem (item "\x7bg\x7d") = .ok (code "\x7bg\x7d" "g") := by decide +kernel
  have hpair : CodecCode.ofItem pair = .ok codec := by decide +kernel
  refine ⟨hf, ((captures_iff _).1 _ hf).2 ?_, hg, mt ((captures_iff _).1 _ hg).1 ?_, hpair,
    ((captures_iff pair).2 codec hpair).2 (by decide)⟩
  · exact ⟨_, List.mem_of_getElem? (i := 2) rfl, _, "\x7bf\x7d", rfl, List.mem_cons_self,
      ⟨[], [], rfl, nofun⟩, by decide +kernel⟩
  · rintro ⟨part, hpart, names, text, hfields, -, hfirst, hmentions⟩
    rw [firstError_iff] at hfirst
    simp only [item, Item.parts, List.map_cons, List.map_nil, List.mem_cons, List.not_mem_nil,
      or_false] at hpart
    obtain rfl | rfl | rfl := hpart
    · cases hfields
    · cases hfields
    · cases hfirst
      exact absurd hmentions (by decide +kernel)

/-- Code that is derived writes to a field, and has two type parameters of one name. -/
theorem captures_field_and_parameter :
    (let item : Item := ⟨"Fault", [], [⟨"error", .list [.text "cannot \x7bf\x7d"]⟩],
        .struct (.named ["f"])⟩
      let code : DisplayCode :=
        ⟨"Fault", [], .single (.named ["f"]) ⟨"cannot \x7bf\x7d", some ["f"]⟩⟩
      DisplayCode.ofItem item = .ok code ∧ code.Captures) ∧
    (let item : Item := ⟨"Pair", ["S"], [], .struct (.unnamed 2)⟩
      let code : CodecCode :=
        ⟨"Pair", ["S"], .fields [.position 0, .position 1], .positional [0, 1]⟩
      CodecCode.ofItem item = .ok code ∧ item.generics.Nodup ∧ ¬ code.parameters.Nodup) := by
  refine ⟨⟨by decide +kernel, ?_⟩, by decide +kernel, by decide, by decide⟩
  exact ⟨_, List.mem_singleton.2 rfl, List.mem_singleton.2 rfl⟩

end StackMachine.Derive
