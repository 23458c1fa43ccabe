/-!
# Items

The type declarations that implementations are derived for: structs, enums and unions with their
fields, type parameters and attributes. The types of fields play no part.
-/

namespace StackMachine.Derive

/-- An argument of an attribute. -/
inductive Argument
  /-- A string literal with this value. -/
  | text (value : String)
  /-- A literal of another kind. -/
  | literal
  /-- A name, which is no literal. -/
  | name
  deriving DecidableEq, Repr

/-- How an attribute is written behind its path. -/
inductive AttributeForm
  /-- `(X, …)` -/
  | list (arguments : List Argument)
  /-- `= X` -/
  | value (argument : Argument)
  /-- Nothing. -/
  | bare
  deriving DecidableEq, Repr

structure Attribute where
  path : String
  form : AttributeForm
  deriving DecidableEq, Repr

/-- The fields of a struct or of a variant. -/
inductive Fields
  /-- No fields at all. -/
  | unit
  | named (names : List String)
  /-- So many fields, known by their positions. -/
  | unnamed (count : Nat)
  deriving DecidableEq, Repr

structure Variant where
  name : String
  attributes : List Attribute := []
  fields : Fields := .unit
  deriving DecidableEq, Repr

/-- What an item declares. -/
inductive Body
  | struct (fields : Fields)
  | enum (variants : List Variant)
  | union
  deriving DecidableEq, Repr

structure Item where
  name : String
  /-- The names of the type parameters. -/
  generics : List String := []
  attributes : List Attribute := []
  body : Body
  deriving DecidableEq, Repr

/-- Why nothing can be derived for an item. -/
inductive Rejection
  | displayOfUnion
  /-- A type or a variant (`owner`) lacks its message. -/
  | missingMessage (owner name : String)
  /-- The attribute is not written with arguments. -/
  | messageNotListed
  /-- The arguments are not one literal. -/
  | messageNotLiteral
  /-- The argument is a literal, but no string. -/
  | messageNotText
  | codecOfEnum
  | codecOfUnion
  deriving DecidableEq, Repr

/-- The text that reports a rejection. -/
def Rejection.message : Rejection → String
  | displayOfUnion => "Error derive does not support unions"
  | missingMessage owner name =>
    "missing #[error(\"...\")] attribute on " ++ owner ++ " `" ++ name ++
      "`; every error variant must declare a display message"
  | messageNotListed =>
    "invalid #[error] attribute; use #[error(\"message\")] to describe the error"
  | messageNotLiteral =>
    "failed to parse #[error] attribute; expected a string literal like " ++
      "#[error(\"stack is empty\")]"
  | messageNotText => "invalid #[error] attribute: message must be a string literal"
  | codecOfEnum =>
    "BinaryCodec derive supports structs only; implement Encode/Decode by hand for enums"
  | codecOfUnion => "BinaryCodec derive does not support unions"

end StackMachine.Derive
