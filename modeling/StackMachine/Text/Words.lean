import StackMachine.Text.Blank

/-!
# Words and lines

How text is cut into words and into lines.

* `words`: the pieces between blanks, empty ones left out.
* `lines`: a line ends at a newline, and a carriage return before that newline belongs to the
  end of the line; after the last newline there is a line only if there is text.
-/

namespace StackMachine

/-! ## Words -/

/-- The words of a text: the non-empty pieces between blanks. -/
def words (text : List Char) : List (List Char) :=
  (text.splitOnP isBlank).filter (! ·.isEmpty)

@[simp] theorem words_nil : words [] = [] := by simp [words]

/-- **A blank separates the words on its two sides.** -/
theorem words_append_cons {c : Char} (h : isBlank c = true) (before behind : List Char) :
    words (before ++ c :: behind) = words before ++ words behind := by
  simp [words, List.splitOnP_append_cons before behind h]

theorem words_cons_of_isBlank {c : Char} (h : isBlank c = true) (text : List Char) :
    words (c :: text) = words text := by
  simpa using words_append_cons h [] text

/-- Characters without blanks are one word. -/
theorem words_eq_singleton {word : List Char} (h : ∀ c ∈ word, isBlank c = false)
    (hne : word ≠ []) : words word = [word] := by
  simp [words, List.splitOnP_eq_singleton h, hne]

/-! ## Lines -/

/-- A line without the carriage return at its end, if there is one. -/
def dropReturn (line : List Char) : List Char :=
  if line.getLast? = some '\r' then line.dropLast else line

/-- The lines of a text, without their ends. -/
def lines (text : List Char) : List (List Char) :=
  let pieces := text.splitOn '\n'
  pieces.dropLast.map dropReturn ++ pieces.getLast?.toList.filter (! ·.isEmpty)

@[simp] theorem lines_nil : lines [] = [] := by
  simp [lines]

/-- **The first newline ends the first line.** -/
theorem lines_append_newline {line : List Char} (h : '\n' ∉ line) (text : List Char) :
    lines (line ++ '\n' :: text) = dropReturn line :: lines text := by
  have hne := List.splitOn_ne_nil '\n' text
  simp only [lines, List.splitOn_append_cons_self_of_not_mem h]
  rw [List.dropLast_cons_of_ne_nil hne, List.getLast?_cons_of_ne_nil hne]
  rfl

/-- Text without newline is one line. -/
theorem lines_eq_singleton {line : List Char} (h : '\n' ∉ line) (hne : line ≠ []) :
    lines line = [line] := by
  simp [lines, List.splitOn_eq_singleton h, hne]

end StackMachine
