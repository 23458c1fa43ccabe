/-!
# Tokens

The code that is generated is a sequence of tokens. Punctuation is one token per character, and so
is each bracket.
-/

namespace StackMachine.Derive

inductive Token
  /-- A keyword or a name. -/
  | word (text : String)
  /-- A punctuation character or a bracket. -/
  | mark (c : Char)
  /-- The position of a field. -/
  | number (n : Nat)
  /-- A string literal with this value. -/
  | text (value : String)
  deriving DecidableEq, Repr

namespace Token

/-- One mark per character. -/
def marks (text : String) : List Token :=
  text.toList.map mark

/-- Tokens in parentheses. -/
def parens (inner : List Token) : List Token :=
  mark '(' :: inner ++ [mark ')']

/-- Tokens in braces. -/
def braces (inner : List Token) : List Token :=
  mark '\x7b' :: inner ++ [mark '\x7d']

/-- Tokens in angle brackets. -/
def angles (inner : List Token) : List Token :=
  mark '<' :: inner ++ [mark '>']

/-- Names joined by `::`. -/
def path (names : List String) : List Token :=
  (marks "::").intercalate (names.map fun name => [word name])

/-- A path that starts at the root. -/
def rooted (names : List String) : List Token :=
  marks "::" ++ path names

/-- Token sequences joined by commas. -/
def commas (parts : List (List Token)) : List Token :=
  [mark ','].intercalate parts

/-- Type parameters, if there are any. -/
def generics (names : List String) : List Token :=
  if names = [] then [] else angles (commas (names.map fun name => [word name]))

/-- The implementation of a trait for a type. -/
def implementation (parameters : List String) (behaviour : List Token) (type : String)
    (inner : List Token) : List Token :=
  word "impl" :: generics parameters ++ behaviour ++ [word "for", word type] ++
    generics parameters ++ braces inner

end Token

end StackMachine.Derive
