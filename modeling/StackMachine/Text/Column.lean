/-!
# Columns

Fitting a text into a column of a given width. A text that is already as wide stays as it is;
widths count characters.

* `Column.left`, `Column.right`, `Column.centre`: fill with spaces on one side or on both.
* `Column.cut`: the first characters only.
-/

namespace StackMachine.Column

/-- A run of spaces. -/
def spaces (n : Nat) : String :=
  String.ofList (List.replicate n ' ')

/-- The text at the left of its column. -/
def left (width : Nat) (text : String) : String :=
  text ++ spaces (width - text.length)

/-- The text at the right of its column. -/
def right (width : Nat) (text : String) : String :=
  spaces (width - text.length) ++ text

/-- The text in the middle of its column; an odd space goes to the right. -/
def centre (width : Nat) (text : String) : String :=
  let gap := width - text.length
  spaces (gap / 2) ++ text ++ spaces (gap - gap / 2)

/-- The first characters of a text, at most `width` of them. -/
def cut (width : Nat) (text : String) : String :=
  String.ofList (text.toList.take width)

end StackMachine.Column
