import StackMachine.Derive.Token

/-!
# Code as it is spelled

Generated code is described by the text it consists of, with gaps for the names of an item.

* `spelled`: the tokens of a text.
* `Each`: a piece of code for each of some things; **`Each.unique`**: for which things it is.
* `Separated`: parts with commas between them.
* `Implements`: the implementation of a trait for a type with its parameters.
* **`implements_implementation`**: this is how implementations are generated.
-/

namespace StackMachine.Derive

/-! ## Texts -/

/-- The token of the name with these characters; no characters are no name. -/
def nameTokens (name : List Char) : List Token :=
  if name = [] then [] else [.word (String.ofList name)]

/-- The tokens of a text behind the first characters of a name. -/
def spelledAfter (name : List Char) : List Char → List Token
  | [] => nameTokens name
  | c :: rest =>
    if c.isAlphanum || c == '_' then spelledAfter (name ++ [c]) rest
    else nameTokens name ++ (if c = ' ' then [] else [.mark c]) ++ spelledAfter [] rest

/-- The tokens of a text. Names go as far as they can; blanks only part them. -/
def spelled (text : String) : List Token :=
  spelledAfter [] text.toList

example : spelled "match self \x7b a => f(b_1), \x7d" =
    [.word "match", .word "self", .mark '\x7b', .word "a", .mark '=', .mark '>', .word "f",
      .mark '(', .word "b_1", .mark ')', .mark ',', .mark '\x7d'] := rfl

/-! ## Repeated pieces -/

section

variable {α : Type} {piece : α → List Token → Prop} {as as' : List α} {tokens : List Token}

/-- A piece for each of these, one behind another. -/
inductive Each (piece : α → List Token → Prop) : List α → List Token → Prop
  | nil : Each piece [] []
  | cons {a : α} {as : List α} {front rest : List Token} (ha : piece a front)
      (h : Each piece as rest) : Each piece (a :: as) (front ++ rest)

/-- A piece has tokens, and says what it is for and where it ends, whatever follows it. -/
structure SelfDelimiting (piece : α → List Token → Prop) : Prop where
  ne_nil : ∀ a front rest, piece a front → front ++ rest ≠ []
  unique : ∀ a a' front front' rest rest', piece a front → piece a' front' →
    front ++ rest = front' ++ rest' → a = a' ∧ rest = rest'

/-- **Pieces that delimit themselves** can be for nothing else. -/
theorem Each.unique (hpiece : SelfDelimiting piece) (h : Each piece as tokens)
    (h' : Each piece as' tokens) : as = as' := by
  induction h generalizing as' with
  | nil =>
    generalize htokens : ([] : List Token) = whole at h'
    cases h' with
    | nil => rfl
    | cons ha h' => exact absurd htokens.symm (hpiece.ne_nil _ _ _ ha)
  | @cons a as front rest ha h ih =>
    generalize htokens : front ++ rest = whole at h'
    cases h' with
    | nil => exact absurd htokens (hpiece.ne_nil _ _ _ ha)
    | cons ha' h' =>
      obtain ⟨rfl, rfl⟩ := hpiece.unique _ _ _ _ _ _ ha ha' htokens
      rw [ih h']

theorem each_flatMap {f : α → List Token} (hf : ∀ a, piece a (f a)) (as : List α) :
    Each piece as (as.flatMap f) := by
  induction as with
  | nil => exact .nil
  | cons a as ih => exact .cons (hf a) ih

end

/-! ## Lists and implementations -/

/-- The parts with commas between them. -/
inductive Separated : List (List Token) → List Token → Prop
  | none : Separated [] []
  | last (part : List Token) : Separated [part] part
  | more {part next tokens : List Token} {parts : List (List Token)}
      (h : Separated (next :: parts) tokens) :
      Separated (part :: next :: parts) (part ++ spelled "," ++ tokens)

/-- The type parameters of these names: in angle brackets, unless there are none. -/
inductive Parameters (names : List String) : List Token → Prop
  | none (h : names = []) : Parameters names []
  | some {inner : List Token} (h : names ≠ [])
      (hinner : Separated (names.map fun name => [.word name]) inner) :
      Parameters names (spelled "<" ++ inner ++ spelled ">")

/-- The implementation of a trait for a type of this name with these type parameters. -/
def Implements (behaviour type : String) (names : List String) (inner tokens : List Token) : Prop :=
  ∃ parameters, Parameters names parameters ∧
    tokens = spelled "impl" ++ parameters ++ spelled behaviour ++ spelled "for" ++ [.word type] ++
      parameters ++ spelled "\x7b" ++ inner ++ spelled "\x7d"

theorem separated_commas (parts : List (List Token)) : Separated parts (Token.commas parts) := by
  induction parts with
  | nil => exact .none
  | cons part parts ih =>
    cases parts with
    | nil =>
      rw [Token.commas, List.intercalate_singleton]
      exact .last part
    | cons next parts =>
      rw [Token.commas, List.intercalate_cons_cons]
      exact .more ih

theorem parameters_generics (names : List String) : Parameters names (Token.generics names) := by
  unfold Token.generics
  split
  · next h => exact .none h
  · next h => exact .some h (separated_commas _)

/-- **Implementations are generated as they are spelled.** -/
theorem implements_implementation {behaviour type : String} {names : List String}
    {inner : List Token} :
    Implements behaviour type names inner
      (Token.implementation names (spelled behaviour) type inner) := by
  refine ⟨_, parameters_generics names, ?_⟩
  change _ = [Token.word "impl"] ++ Token.generics names ++ spelled behaviour ++ [.word "for"] ++
    [.word type] ++ Token.generics names ++ [.mark '\x7b'] ++ inner ++ [.mark '\x7d']
  simp [Token.implementation, Token.braces]

end StackMachine.Derive
