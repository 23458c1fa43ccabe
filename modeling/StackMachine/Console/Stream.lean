import StackMachine.Console
import StackMachine.Literal
import StackMachine.Text.Words

/-!
# The console on byte streams

A console that reads from one byte stream and writes to another. Input is taken line by line and
read word by word, so that several integers may share a line; every value is written on a line of
its own. A prompt, if there is one, is written before each integer is read.

* `cutLines`: the lines of the input, each with its newline.
* `Stream.nextWord`: the next word; a line that is not UTF-8 is taken and reported, and reading
  goes on behind it.
* `Stream.console`: the console.
-/

namespace StackMachine

/-! ## Lines of bytes -/

/-- The byte that ends a line. -/
def newline : UInt8 := 10

/-- Cuts bytes after each newline, given the bytes of the current line, latest first. -/
def cutLinesFrom (line : Bytes) : Bytes → List Bytes
  | [] => if line = [] then [] else [line.reverse]
  | b :: rest =>
    if b = newline then (b :: line).reverse :: cutLinesFrom [] rest
    else cutLinesFrom (b :: line) rest

/-- The lines of a byte sequence, newlines included; only the last one may lack it. -/
def cutLines (bytes : Bytes) : List Bytes :=
  cutLinesFrom [] bytes

theorem flatten_cutLinesFrom (line bytes : Bytes) :
    (cutLinesFrom line bytes).flatten = line.reverse ++ bytes := by
  fun_induction cutLinesFrom line bytes with
  | case1 => simp
  | case2 => simp
  | case3 line rest ih => simp [ih]
  | case4 line b rest h ih => simp [ih]

/-- Cutting into lines loses no byte. -/
@[simp] theorem flatten_cutLines (bytes : Bytes) : (cutLines bytes).flatten = bytes := by
  simp [cutLines, flatten_cutLinesFrom]

theorem cutLinesFrom_append_newline (line before behind : Bytes) :
    cutLinesFrom line (before ++ newline :: behind) =
      cutLinesFrom line (before ++ [newline]) ++ cutLinesFrom [] behind := by
  induction before generalizing line with
  | nil => simp [cutLinesFrom]
  | cons b before ih =>
    by_cases h : b = newline <;> simp [cutLinesFrom, h, ih]

/-- Lines that end are cut in the same way whatever follows. -/
theorem cutLines_append_newline (before behind : Bytes) :
    cutLines (before ++ newline :: behind) = cutLines (before ++ [newline]) ++ cutLines behind :=
  cutLinesFrom_append_newline [] before behind

/-! ## The state of the console -/

/-- What a stream console has still to read, and what it wrote. -/
structure Stream where
  /-- The input lines not taken yet. -/
  input : List Bytes := []
  /-- The words of the last line taken that were not read yet. -/
  pending : List String := []
  /-- Written before each read. -/
  prompt : Option String := none
  /-- Everything written so far. -/
  output : Bytes := []
  /-- The number of bytes that the output still takes; without bound if there is no number. -/
  room : Option Nat := none
  deriving DecidableEq, Repr

namespace Stream

/-- The number of input bytes not taken yet. -/
def unread (s : Stream) : Nat :=
  s.input.flatten.length

/-! ## Writing -/

/-- Writes bytes. Where the output takes only some of them, those are kept and the rest fails. -/
def put (s : Stream) (bytes : Bytes) : Except Cause Unit × Stream :=
  match s.room with
  | none => (.ok (), { s with output := s.output ++ bytes })
  | some room =>
    if bytes.length ≤ room then
      (.ok (), { s with output := s.output ++ bytes, room := some (room - bytes.length) })
    else
      (.error (.consoleError "write limit reached"),
        { s with output := s.output ++ bytes.take room, room := some 0 })

/-- Writes the prompt. -/
def putPrompt (s : Stream) : Except Cause Unit × Stream :=
  match s.prompt with
  | none => (.ok (), s)
  | some prompt => s.put (utf8 prompt)

/-- Writes a value and ends its line. -/
def writeInteger (value : Int64) (s : Stream) : Except Cause Unit × Stream :=
  s.put (utf8 (Decimal.write value) ++ [newline])

/-! ## Reading -/

/-- The words of an input line. -/
def wordsOfLine (line : Bytes) : Except Cause (List String) :=
  match ofUtf8? line with
  | none => .error (.consoleError "stream did not contain valid UTF-8")
  | some text => .ok ((words text.toList).map String.ofList)

/-- The first word of the lines, with the words behind it on its line and the lines behind that. -/
def firstWord : List Bytes → Except Cause String × List String × List Bytes
  | [] => (.error .inputExhausted, [], [])
  | line :: rest =>
    match wordsOfLine line with
    | .error c => (.error c, [], rest)
    | .ok [] => firstWord rest
    | .ok (word :: pending) => (.ok word, pending, rest)

/-- Takes the next word of the input. -/
def nextWord (s : Stream) : Except Cause String × Stream :=
  match s.pending with
  | word :: pending => (.ok word, { s with pending })
  | [] =>
    match firstWord s.input with
    | (answer, pending, input) => (answer, { s with input, pending })

/-- Writes the prompt and reads the next word as an integer. -/
def readInteger (s : Stream) : Except Cause Int64 × Stream :=
  match s.putPrompt with
  | (.error c, s) => (.error c, s)
  | (.ok (), s) =>
    match s.nextWord with
    | (.error c, s) => (.error c, s)
    | (.ok word, s) => (integer word, s)

/-- The console on byte streams. -/
def console : Console Stream where
  read s := let (answer, s) := s.readInteger; (answer.mapError .cause, s)
  write value s := let (answer, s) := s.writeInteger value; (answer.mapError .cause, s)

end Stream

end StackMachine
