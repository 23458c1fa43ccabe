/-!
# Placeholders

A message refers to a field by its name or position in braces, with a format specification behind
a colon or without one.

* `mentions`: whether a message refers to a field.
* `renamePlaceholder`: refers to a field by another name.
-/

namespace StackMachine.Derive

/-- Whether the pattern occurs in the text. -/
def occursIn (pattern : List Char) : List Char → Bool
  | [] => pattern.isEmpty
  | c :: rest => pattern.isPrefixOf (c :: rest) || occursIn pattern rest

/-- Replaces the occurrences of a pattern from left to right, after `skip` characters that belong
to an occurrence found before. -/
def replaceAfter (pattern replacement : List Char) (skip : Nat) : List Char → List Char
  | [] => []
  | c :: rest =>
    match skip with
    | skip + 1 => replaceAfter pattern replacement skip rest
    | 0 =>
      if pattern.isPrefixOf (c :: rest) then
        replacement ++ replaceAfter pattern replacement (pattern.length - 1) rest
      else c :: replaceAfter pattern replacement 0 rest

/-- Replaces the occurrences of a pattern, which is not empty, from left to right. -/
def replaceAll (pattern replacement text : List Char) : List Char :=
  replaceAfter pattern replacement 0 text

/-- A placeholder without format specification. -/
def plainPlaceholder (name : String) : List Char :=
  '\x7b' :: name.toList ++ ['\x7d']

/-- The front of a placeholder with a format specification. -/
def formattedPlaceholder (name : String) : List Char :=
  '\x7b' :: name.toList ++ [':']

/-- Whether a message refers to a field. -/
def mentions (message name : String) : Bool :=
  occursIn (plainPlaceholder name) message.toList ||
    occursIn (formattedPlaceholder name) message.toList

/-- Lets the placeholders of one field refer to it by a new name. -/
def renamePlaceholder (field name message : String) : String :=
  let plain := replaceAll (plainPlaceholder field) (plainPlaceholder name) message.toList
  String.ofList (replaceAll (formattedPlaceholder field) (formattedPlaceholder name) plain)

end StackMachine.Derive
