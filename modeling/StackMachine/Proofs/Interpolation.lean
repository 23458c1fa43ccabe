import StackMachine.Proofs.Placeholders
import StackMachine.Text.Decimal

/-!
# Messages as format texts

The code derived for an error type takes exactly the fields out of a value that its message fills
in, and writes the text that the message describes, as long as the message shows no field in braces
as literal text. The search for fields does not tell literal braces from placeholders: a quoted
field is bound without use, and a quoted position is renamed.

* `Fields.binding`, `Fields.bindPieces`: what a message asks for; `Describes`.
* `display_eq`, `read?_format`: what the code does, whatever the message.
* `Describes.mem_arguments`, `Describes.render?`: no argument is passed in vain, and what the call
  writes is what the message describes.
* **`display_describes_iff`**: when the code does what the message asks for.
* `display_not_describes`: messages for which it does not.
-/

namespace StackMachine.Derive

open Format

/-! ## What a message asks for -/

namespace Fields

/-- The names that a message knows the fields by. -/
def known : Fields → List String
  | unit => []
  | named names => names
  | unnamed count => positions count

/-- The names of the fields mean nothing in format texts. -/
def Nameable (fields : Fields) : Prop :=
  ∀ names, fields = named names → ∀ name ∈ names, IsFieldName name

/-- The pattern that binds exactly the fields that are known by one of these arguments. -/
def binding (arguments : List String) : Fields → Pattern
  | unit => .unit
  | named names => .named (names.filter (· ∈ arguments))
  | unnamed count => .positional <| (List.range count).map fun i =>
      if toString i ∈ arguments then some (positionName i) else none

/-- The names whose fields are bound to another one: the positions. -/
def rebound : Fields → List String
  | unit => []
  | named _ => []
  | unnamed count => positions count

/-- The pieces of a message, with each argument renamed to what its field is bound to. -/
def bindPieces (fields : Fields) (pieces : List Piece) : List Piece :=
  pieces.map (renamePiece fields.rebound)

/-- What a message shows for an argument, if it is a field. -/
def values (fields : Fields) (shown : String → Option String → List Char) (argument : String) :
    Option (Option String → List Char) :=
  if argument ∈ fields.known then some (shown argument) else none

end Fields

/-- The field that a pattern binds to a name. -/
def Pattern.field? (name : String) : Pattern → Option String
  | unit => none
  | named bound => if name ∈ bound then some name else none
  | positional entries => (entries.idxOf? (some name)).map toString

/-- What a call shows for an argument, if the pattern binds it. -/
def Pattern.values (pattern : Pattern) (shown : String → Option String → List Char)
    (argument : String) : Option (Option String → List Char) :=
  (pattern.field? argument).map shown

/-- A pattern and a call do what the pieces of a message ask for. -/
structure Describes (pieces : List Piece) (fields : Fields) (pattern : Pattern) (call : WriteCall) :
    Prop where
  /-- The fields that the message fills in are bound, and no others. -/
  binds : pattern = fields.binding (arguments pieces)
  /-- They are passed along. -/
  passes : call.arguments.getD [] = pattern.bound
  /-- The format text has the literal text of the message, and its placeholders under new names. -/
  reads : read? call.format.toList = some (fields.bindPieces pieces)

/-- A message can be searched for the fields: it quotes none that it does not fill in as well, and
no position. -/
structure IsClear (pieces : List Piece) (fields : Fields) : Prop where
  known : ∀ name ∈ fields.known, Quotes name pieces → name ∈ arguments pieces
  rebound : ∀ name ∈ fields.rebound, ¬ Quotes name pieces

/-- The fields that are found in a message. -/
def found (fields : Fields) (pieces : List Piece) : List String :=
  fields.known.filter fun name => Quotes name pieces ∨ name ∈ arguments pieces

section

variable {message : String} {pieces : List Piece} {fields : Fields} {pattern : Pattern}
  {call : WriteCall} {names : List String} {count : Nat}

theorem isFieldName_of_mem_positions {name : String} (h : name ∈ positions count) :
    IsFieldName name := by
  obtain ⟨i, -, rfl⟩ := mem_positions.1 h
  exact isFieldName_toString i

theorem isFieldName_of_mem_known (h : fields.Nameable) {name : String}
    (hname : name ∈ fields.known) : IsFieldName name := by
  cases fields with
  | unit => cases hname
  | named names => exact h names rfl name hname
  | unnamed count => exact isFieldName_of_mem_positions hname

theorem positionName_injective {i j : Nat} (h : positionName i = positionName j) : i = j := by
  have hlist := congrArg String.toList h
  rw [toList_positionName, toList_positionName, List.cons.injEq] at hlist
  have hdigits : Nat.toDigits 10 i = Nat.toDigits 10 j :=
    Nat.toList_repr.symm.trans (hlist.2.trans Nat.toList_repr)
  refine Option.some.inj ?_
  rw [← Decimal.natural?_toDigits, hdigits, Decimal.natural?_toDigits]

/-! ## What the code does -/

theorem mentions_iff_mem_found (h : read? message.toList = some pieces) (hfields : fields.Nameable)
    {name : String} (hname : name ∈ fields.known) :
    mentions message name = true ↔ name ∈ found fields pieces := by
  rw [mentions_eq_true_iff, mentions_iff (read?_eq_some_iff.1 h)
    (isFieldName_of_mem_known hfields hname), found, List.mem_filter, decide_eq_true_eq,
    and_iff_right hname]

theorem toString_mem_known {i : Nat} (h : i < count) : toString i ∈ (Fields.unnamed count).known :=
  mem_positions.2 ⟨i, h, rfl⟩

/-- **The fields that are found are bound.** -/
theorem display_eq (h : read? message.toList = some pieces) (hfields : fields.Nameable) :
    (fields.display message).1 = fields.binding (found fields pieces) := by
  cases fields with
  | unit => rfl
  | named names =>
    simp only [Fields.display, Fields.binding]
    congr 1
    refine List.filter_congr fun name hname => ?_
    rw [Bool.eq_iff_iff, mentions_iff_mem_found h hfields hname, decide_eq_true_eq]
  | unnamed count =>
    simp only [Fields.display, Fields.binding]
    congr 1
    refine List.map_congr_left fun i hi => ?_
    simp only [mentions_iff_mem_found h hfields (toString_mem_known (List.mem_range.1 hi))]

theorem renamed_nil (pieces : List Piece) : renamed [] pieces = pieces := by
  induction pieces with
  | nil => rfl
  | cons piece pieces ih => cases piece <;> simp [renamed, renamePiece, renameArgument, ih]

/-- **Positions are renamed wherever they are found**, and nothing else is changed. -/
theorem read?_format (h : read? message.toList = some pieces) :
    read? (fields.display message).2.format.toList = some (renamed fields.rebound pieces) := by
  cases fields with
  | unit | named names =>
    rw [Fields.rebound, renamed_nil]
    exact h
  | unnamed count =>
    have hnames : ∀ name ∈ positions count, IsFieldName name := fun _ =>
      isFieldName_of_mem_positions
    have hreads := reads_renameAll hnames (read?_eq_some_iff.1 h)
    simp only [Fields.display, renamePositions_eq, String.toList_ofList]
    exact read?_eq_some_iff.2 hreads

/-! ## What follows where the code does what is asked for -/

/-- A field that is bound is found again under its new name. -/
theorem binding_values {arguments : List String} {shown : String → Option String → List Char}
    {argument : String} {value : Option String → List Char} (hmem : argument ∈ arguments)
    (hvalue : fields.values shown argument = some value) :
    (fields.binding arguments).values shown (renameArgument fields.rebound argument) =
      some value := by
  unfold Fields.values at hvalue
  split at hvalue
  · next hknown =>
    cases fields with
    | unit => cases hknown
    | named names =>
      have hbound : argument ∈ names.filter (· ∈ arguments) :=
        List.mem_filter.2 ⟨hknown, decide_eq_true hmem⟩
      rw [Fields.rebound, renameArgument, if_neg List.not_mem_nil, Pattern.values, Fields.binding,
        Pattern.field?, if_pos hbound]
      exact hvalue
    | unnamed count =>
      obtain ⟨i, hi, rfl⟩ := mem_positions.1 hknown
      have hrename : renameArgument (positions count) (toString i) = positionName i :=
        if_pos hknown
      -- no other position is bound to this name, so that the search for it ends at `i`
      have hindex : ((List.range count).map fun i =>
          if toString i ∈ arguments then some (positionName i) else none).idxOf?
            (some (positionName i)) = some i := by
        refine List.findIdx?_eq_some_iff_getElem.2 ⟨by simpa using hi, ?_, fun j hj => ?_⟩
        · rw [List.getElem_map, List.getElem_range, if_pos hmem]
          exact beq_self_eq_true _
        · have hne : positionName j ≠ positionName i := fun h => hj.ne (positionName_injective h)
          rw [List.getElem_map, List.getElem_range]
          split <;> simp [hne]
      rw [Fields.rebound, hrename, Pattern.values, Fields.binding, Pattern.field?, hindex]
      exact hvalue
  · cases hvalue

/-- **No argument is passed in vain**: each is the argument of a placeholder. -/
theorem Describes.mem_arguments (h : Describes pieces fields pattern call) {name : String}
    (hname : name ∈ call.arguments.getD []) : name ∈ arguments (fields.bindPieces pieces) := by
  have harguments : ∀ argument ∈ arguments pieces, renameArgument fields.rebound argument ∈
      arguments (fields.bindPieces pieces) := by
    intro argument hargument
    obtain ⟨piece, hpiece, heq⟩ := List.mem_filterMap.1 hargument
    refine List.mem_filterMap.2 ⟨_, List.mem_map_of_mem hpiece, ?_⟩
    cases piece with
    | literal c => cases heq
    | placeholder argument spec => rw [← Option.some.inj heq, renamePiece, Piece.argument?]
  rw [h.passes, h.binds] at hname
  cases fields with
  | unit => cases hname
  | named names => exact harguments name (of_decide_eq_true (List.mem_filter.1 hname).2)
  | unnamed count =>
    simp only [Fields.binding, Pattern.bound, List.mem_filterMap, List.mem_map, id] at hname
    obtain ⟨_, ⟨i, hi, rfl⟩, hentry⟩ := hname
    split at hentry
    · next hargument =>
      have hrename : renameArgument (positions count) (toString i) = positionName i :=
        if_pos (mem_positions.2 ⟨i, List.mem_range.1 hi, rfl⟩)
      rw [← Option.some.inj hentry, ← hrename]
      exact harguments _ hargument
    · cases hentry

/-- **What the call writes is what the message describes**, however fields are shown. -/
theorem Describes.render? (h : Describes pieces fields pattern call)
    {shown : String → Option String → List Char} {text : List Char}
    (htext : render? (fields.values shown) pieces = some text) :
    Format.render? (pattern.values shown) (fields.bindPieces pieces) = some text := by
  rw [h.binds]
  refine render?_map (fun piece hpiece text htext => ?_) htext
  cases piece with
  | literal c => exact htext
  | placeholder argument spec =>
    obtain ⟨value, hvalue, rfl⟩ := Option.map_eq_some_iff.1 htext
    have hargument : argument ∈ arguments pieces := List.mem_filterMap.2 ⟨_, hpiece, rfl⟩
    rw [renamePiece, Piece.rendered?, binding_values hargument hvalue, Option.map_some]

/-! ## When the code does what is asked for -/

theorem binding_congr {found arguments : List String}
    (h : ∀ name ∈ fields.known, name ∈ found ↔ name ∈ arguments) :
    fields.binding found = fields.binding arguments := by
  cases fields with
  | unit => rfl
  | named names =>
    rw [Fields.binding, Fields.binding, List.filter_congr fun name hname => ?_]
    rw [decide_eq_decide]
    exact h name hname
  | unnamed count =>
    rw [Fields.binding, Fields.binding, List.map_congr_left fun i hi => ?_]
    simp only [h _ (toString_mem_known (List.mem_range.1 hi))]

theorem mem_found {name : String} : name ∈ found fields pieces ↔
    name ∈ fields.known ∧ (Quotes name pieces ∨ name ∈ arguments pieces) := by
  rw [found, List.mem_filter, decide_eq_true_eq]

theorem describes_of_isClear (h : read? message.toList = some pieces) (hfields : fields.Nameable)
    (hclear : IsClear pieces fields) :
    Describes pieces fields (fields.display message).1 (fields.display message).2 := by
  refine ⟨(display_eq h hfields).trans (binding_congr fun name hname => ?_),
    fields.arguments_display message, ?_⟩
  · rw [mem_found, and_iff_right hname, or_iff_right_of_imp (hclear.known name hname)]
  · rw [read?_format h, renamed_eq_map_iff.2 hclear.rebound]
    rfl

theorem isClear_of_describes (h : read? message.toList = some pieces) (hfields : fields.Nameable)
    (hdescribes : Describes pieces fields (fields.display message).1 (fields.display message).2) :
    IsClear pieces fields := by
  -- a format text reads one way only, so that the pieces agree and nothing quoted was renamed
  have hrebound : ∀ name ∈ fields.rebound, ¬ Quotes name pieces :=
    renamed_eq_map_iff.1 (Option.some.inj ((read?_format h).symm.trans hdescribes.reads))
  refine ⟨fun name hname hquotes => ?_, hrebound⟩
  have hfound : name ∈ found fields pieces := mem_found.2 ⟨hname, .inl hquotes⟩
  have hbinds := (display_eq h hfields).symm.trans hdescribes.binds
  cases fields with
  | unit => cases hname
  | named names =>
    have hmem : name ∈ names.filter (· ∈ found (.named names) pieces) :=
      List.mem_filter.2 ⟨hname, decide_eq_true hfound⟩
    rw [Pattern.named.inj hbinds] at hmem
    exact of_decide_eq_true (List.mem_filter.1 hmem).2
  | unnamed count => exact absurd hquotes (hrebound name hname)

/-- **What the code for a message does.** In any case it binds the fields that the message fills in
or quotes, passes them along, and renames the positions where they are filled in or quoted. So it
binds exactly what the message fills in, and passes a format text that differs from the message in
the arguments of placeholders only, exactly if the message can be searched for its fields; and then
no argument is passed in vain and the text that is written is the one that the message describes,
however fields are shown under a specification. -/
theorem display_describes_iff (message : String) (pieces : List Piece) (fields : Fields)
    (h : read? message.toList = some pieces) (hfields : fields.Nameable) :
    let pattern := (fields.display message).1
    let call := (fields.display message).2
    (pattern = fields.binding (found fields pieces) ∧ call.arguments.getD [] = pattern.bound ∧
        read? call.format.toList = some (renamed fields.rebound pieces)) ∧
      (Describes pieces fields pattern call ↔ IsClear pieces fields) ∧
      (IsClear pieces fields →
        (∀ name ∈ call.arguments.getD [], name ∈ arguments (fields.bindPieces pieces)) ∧
        ∀ (shown : String → Option String → List Char) (text : List Char),
          render? (fields.values shown) pieces = some text →
          render? (pattern.values shown) (fields.bindPieces pieces) = some text) := by
  intro pattern call
  refine ⟨⟨display_eq h hfields, fields.arguments_display message, read?_format h⟩,
    ⟨isClear_of_describes h hfields, describes_of_isClear h hfields⟩, fun hclear => ?_⟩
  have hdescribes := describes_of_isClear h hfields hclear
  exact ⟨fun name => hdescribes.mem_arguments, fun shown text => hdescribes.render?⟩

end

/-- Positions that begin with one another, several placeholders for one field, a specification that
fills with a brace, and a quoted word that is no position. -/
theorem display_describes_iff_prefixed_positions :
    let message := "\x7b1:\x7d>3\x7d \x7b11\x7d \x7b\x7bx\x7d\x7d \x7b1\x7d"
    let pieces : List Piece := [.placeholder "1" (some "\x7d>3"), .literal ' ',
      .placeholder "11" none, .literal ' ', .literal '\x7b', .literal 'x', .literal '\x7d',
      .literal ' ', .placeholder "1" none]
    let call := ((Fields.unnamed 12).display message).2
    read? message.toList = some pieces ∧ (Fields.unnamed 12).Nameable ∧
      IsClear pieces (.unnamed 12) ∧
      Describes pieces (.unnamed 12) ((Fields.unnamed 12).display message).1 call ∧
      call.format = "\x7bf1:\x7d>3\x7d \x7bf11\x7d \x7b\x7bx\x7d\x7d \x7bf1\x7d" ∧
      call.arguments = some ["f1", "f11"] := by
  intro message pieces call
  have h : read? message.toList = some pieces := by decide +kernel
  have hfields : (Fields.unnamed 12).Nameable := fun names heq => by cases heq
  have hclear : IsClear pieces (.unnamed 12) := ⟨by decide +kernel, by decide +kernel⟩
  obtain ⟨-, hiff, -⟩ := display_describes_iff message pieces (.unnamed 12) h hfields
  exact ⟨h, hfields, hclear, hiff.2 hclear, by decide +kernel, by decide +kernel⟩

/-- A quoted field is bound and passed in vain, and a quoted position is renamed: with 5 for its
field, `{{0}} is {0}` describes `{0} is 5`, and `{f0} is 5` is written. -/
theorem display_not_describes :
    (let message := "\x7b\x7bline\x7d\x7d"
      let pieces := "\x7bline\x7d".toList.map Piece.literal
      let display := (Fields.named ["line"]).display message
      read? message.toList = some pieces ∧ arguments pieces = [] ∧
        display.1 = .named ["line"] ∧ display.2.arguments = some ["line"] ∧
        ¬ Describes pieces (.named ["line"]) display.1 display.2) ∧
    (let message := "\x7b\x7b0\x7d\x7d is \x7b0\x7d"
      let pieces := "\x7b0\x7d is ".toList.map Piece.literal ++ [.placeholder "0" none]
      let display := (Fields.unnamed 1).display message
      let five : String → Option String → List Char := fun _ _ => ['5']
      read? message.toList = some pieces ∧
        render? ((Fields.unnamed 1).values five) pieces = some "\x7b0\x7d is 5".toList ∧
        display.2.format = "\x7b\x7bf0\x7d\x7d is \x7bf0\x7d" ∧
        (read? display.2.format.toList).bind (render? (display.1.values five)) =
          some "\x7bf0\x7d is 5".toList ∧
        ¬ Describes pieces (.unnamed 1) display.1 display.2) := by
  constructor
  · intro message pieces display
    refine ⟨by decide +kernel, by decide +kernel, by decide +kernel, by decide +kernel, fun h => ?_⟩
    have hbinds : display.1 = .named [] := h.binds
    exact absurd hbinds (by decide +kernel)
  · intro message pieces display five
    refine ⟨by decide +kernel, by decide +kernel, by decide +kernel, by decide +kernel, fun h => ?_⟩
    have hreads := h.reads
    exact absurd hreads (by decide +kernel)

end StackMachine.Derive
