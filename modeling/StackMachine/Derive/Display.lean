import StackMachine.Derive.Item
import StackMachine.Derive.Placeholder
import StackMachine.Derive.Token

/-!
# Deriving messages for error types

An error type declares a message for itself or for each of its variants. The code derived for it
takes the fields that the message refers to out of the value and writes the message with them.

* `messageOf`: the message that attributes declare; the first `error` attribute decides.
* `Fields.display`: the pattern and the call that writes the message, for one set of fields.
* `DisplayCode.ofItem`: the code for an item, or why there is none.
* `DisplayCode.tokens`: that code as tokens.
-/

namespace StackMachine.Derive

/-! ## Messages -/

/-- The message that the arguments of an attribute spell: one string literal. -/
def messageOfArguments : List Argument → Except Rejection String
  | [.text message] => .ok message
  | [.literal] => .error .messageNotText
  | _ => .error .messageNotLiteral

/-- The message that the attributes of a type or a variant declare. -/
def messageOf (attributes : List Attribute) (owner name : String) : Except Rejection String :=
  match attributes.find? (·.path == "error") with
  | none => .error (.missingMessage owner name)
  | some declared =>
    match declared.form with
    | .list arguments => messageOfArguments arguments
    | _ => .error .messageNotListed

/-! ## Patterns and calls -/

/-- A pattern that takes fields out of a value. -/
inductive Pattern
  | unit
  /-- Binds these fields by their names and ignores all others. -/
  | named (bound : List String)
  /-- Binds a field to a name or ignores it, position by position. -/
  | positional (entries : List (Option String))
  deriving DecidableEq, Repr

/-- The names that a pattern binds. -/
def Pattern.bound : Pattern → List String
  | unit => []
  | named bound => bound
  | positional entries => entries.filterMap id

/-- The call that writes a message. -/
structure WriteCall where
  format : String
  /-- The names that are passed along; there are none for a value without fields. -/
  arguments : Option (List String)
  deriving DecidableEq, Repr

/-- The name that a field is bound to by its position. -/
def positionName (i : Nat) : String :=
  "f" ++ toString i

/-- The positions, out of `count`, that a message refers to. -/
def mentionedPositions (message : String) (count : Nat) : List Nat :=
  (List.range count).filter fun i => mentions message (toString i)

/-- A message whose placeholders refer to the fields by the names they are bound to. -/
def renamePositions (message : String) (count : Nat) : String :=
  (mentionedPositions message count).foldl
    (fun text i => renamePlaceholder (toString i) (positionName i) text) message

/-- The pattern for the fields of a message and the call that writes it. Fields that the message
does not refer to are not bound. -/
def Fields.display (message : String) : Fields → Pattern × WriteCall
  | unit => (.unit, ⟨message, none⟩)
  | named names =>
    let used := names.filter (mentions message)
    (.named used, ⟨message, some used⟩)
  | unnamed count =>
    let entries := (List.range count).map fun i =>
      if mentions message (toString i) then some (positionName i) else none
    (.positional entries,
      ⟨renamePositions message count, some ((mentionedPositions message count).map positionName)⟩)

/-- What is bound is passed along, and nothing else. -/
theorem Fields.arguments_display (message : String) (fields : Fields) :
    (fields.display message).2.arguments.getD [] = (fields.display message).1.bound := by
  cases fields with
  | unit | named names => rfl
  | unnamed count =>
    simp only [Fields.display, Option.getD_some, Pattern.bound, mentionedPositions]
    rw [← List.filterMap_eq_map, List.filterMap_filter, List.filterMap_map]
    rfl

/-! ## Code -/

/-- One case of the code: the pattern of a variant and the call for it. -/
structure Arm where
  variant : String
  pattern : Pattern
  call : WriteCall
  deriving DecidableEq, Repr

/-- How the code writes a value. -/
inductive DisplayBody
  /-- Takes the fields of a struct. -/
  | single (pattern : Pattern) (call : WriteCall)
  /-- Tells the variants of an enum apart. -/
  | cases (arms : List Arm)
  deriving DecidableEq, Repr

/-- The code derived for an error type. -/
structure DisplayCode where
  name : String
  generics : List String
  body : DisplayBody
  deriving DecidableEq, Repr

namespace DisplayCode

/-- The case for a variant. -/
def arm (v : Variant) : Except Rejection Arm :=
  match messageOf v.attributes "variant" v.name with
  | .error e => .error e
  | .ok message =>
    let (pattern, call) := v.fields.display message
    .ok ⟨v.name, pattern, call⟩

/-- The cases for all variants, or the rejection of the first variant that has none. -/
def arms : List Variant → Except Rejection (List Arm)
  | [] => .ok []
  | v :: vs =>
    match arm v with
    | .error e => .error e
    | .ok first =>
      match arms vs with
      | .error e => .error e
      | .ok rest => .ok (first :: rest)

/-- The body of the code for an item. -/
def bodyOf (item : Item) : Except Rejection DisplayBody :=
  match item.body with
  | .enum variants =>
    match arms variants with
    | .error e => .error e
    | .ok arms => .ok (.cases arms)
  | .struct fields =>
    match messageOf item.attributes "type" item.name with
    | .error e => .error e
    | .ok message =>
      let (pattern, call) := fields.display message
      .ok (.single pattern call)
  | .union => .error .displayOfUnion

/-- The code for an item. -/
def ofItem (item : Item) : Except Rejection DisplayCode :=
  match bodyOf item with
  | .error e => .error e
  | .ok body => .ok { name := item.name, generics := item.generics, body }

end DisplayCode

/-! ## Tokens -/

/-- The name of the parameter that messages are written to. -/
def formatterName : String := "f"

/-- The tokens of a pattern. -/
def Pattern.tokens : Pattern → List Token
  | unit => []
  | named bound =>
    Token.braces <| bound.flatMap (fun name => [.word name, .mark ',']) ++ Token.marks ".."
  | positional entries =>
    Token.parens <| Token.commas <| entries.map fun entry => [.word (entry.getD "_")]

/-- The tokens of a call. -/
def WriteCall.tokens (call : WriteCall) : List Token :=
  let target : List Token := [.word formatterName, .mark ',', .text call.format]
  let rest : List Token :=
    match call.arguments with
    | none => []
    | some names =>
      .mark ',' :: Token.commas (names.map fun name => [.word name, .mark '=', .word name])
  .word "write" :: .mark '!' :: Token.parens (target ++ rest)

/-- The tokens of a case. -/
def Arm.tokens (a : Arm) : List Token :=
  Token.path ["Self", a.variant] ++ a.pattern.tokens ++ Token.marks "=>" ++ a.call.tokens ++
    [.mark ',']

/-- The tokens of a body. -/
def DisplayBody.tokens : DisplayBody → List Token
  | single pattern call =>
    [.word "let", .word "Self"] ++ pattern.tokens ++ [.mark '=', .word "self", .mark ';'] ++
      call.tokens
  | cases arms => [.word "match", .word "self"] ++ Token.braces (arms.flatMap Arm.tokens)

/-- The tokens of the code for an item. -/
def DisplayCode.tokens (code : DisplayCode) : List Token :=
  let parameters : List Token :=
    [.mark '&', .word "self", .mark ',', .word formatterName, .mark ':', .mark '&', .word "mut"] ++
      Token.rooted ["std", "fmt", "Formatter"] ++ Token.angles [.mark '\x27', .word "_"]
  let function : List Token :=
    [.word "fn", .word "fmt"] ++ Token.parens parameters ++ Token.marks "->" ++
      Token.rooted ["std", "fmt", "Result"] ++ Token.braces code.body.tokens
  Token.implementation code.generics (Token.rooted ["std", "fmt", "Display"]) code.name function ++
    Token.implementation code.generics (Token.rooted ["std", "error", "Error"]) code.name []

end StackMachine.Derive
