import StackMachine.Program
import StackMachine.Text.Words

/-!
# Source text

One instruction per line: a mnemonic in upper or lower case and, after blanks, its operand. A
comment starts at `#` or `;` and runs to the end of the line; `name:` defines a label; a line
without words stands for `BLANK`.

* `SourceLine.parse`: the mnemonic and operand of one line.
* `tokenize`: every line of a text, faults tagged with their line.
* `Listing.ofSource`: looks the mnemonics up; the first line that fails decides.
* `Program.assemble`: the program of a source text.
-/

namespace StackMachine

/-! ## One line -/

/-- The two words of a source line. -/
structure SourceLine where
  /-- The mnemonic, in upper case. -/
  mnemonic : String
  /-- The operand, empty if there is none. -/
  operand : String
  deriving DecidableEq, Repr

/-- The characters that start a comment. -/
def startsComment (c : Char) : Bool :=
  c == '#' || c == ';'

/-- The part of a line in front of its comment. -/
def dropComment (line : List Char) : List Char :=
  line.takeWhile (! startsComment ·)

namespace SourceLine

/-- The line of an instruction without operand. -/
def ofOpcode (o : Opcode) : SourceLine :=
  ⟨o.mnemonic, ""⟩

/-- The name that a word defines as a label: the word without the colon at its end. -/
def labelDefinition? (word : List Char) : Option (List Char) :=
  if word.getLast? = some ':' then some word.dropLast else none

/-- The line that the words in front of a comment spell. -/
def ofWords : List (List Char) → Except Cause SourceLine
  | [] => .ok (ofOpcode .blank)
  | first :: rest =>
    match labelDefinition? first, rest with
    | some name, [] => .ok ⟨Opcode.mnemonic .label, String.ofList name⟩
    | some _, extra :: _ => .error (.tooManyArguments (String.ofList extra))
    | none, [] => .ok ⟨String.ofList (first.map Char.toUpper), ""⟩
    | none, [operand] => .ok ⟨String.ofList (first.map Char.toUpper), String.ofList operand⟩
    | none, _ :: extra :: _ => .error (.tooManyArguments (String.ofList extra))

/-- Reads one line of source text. -/
def parse (line : String) : Except Cause SourceLine :=
  ofWords (words (dropComment line.toList))

/-- Looks the mnemonic up in the opcode table. -/
def resolve (l : SourceLine) : Except Cause Record :=
  match Opcode.ofMnemonic? l.mnemonic with
  | some opcode => .ok ⟨opcode, l.operand⟩
  | none => .error (.unknownCommand l.mnemonic)

end SourceLine

/-! ## Whole texts -/

/-- Tags the cause of a failed step with a line, counted from 0. -/
def tagLine {α : Type} (line : Nat) : Except Cause α → Except Fault α
  | .ok a => .ok a
  | .error c => .error ((Fault.cause c).atLine (line + 1))

/-- Reads every line of a source text. -/
def tokenize (source : String) : List (Except Fault SourceLine) :=
  (lines source.toList).mapIdx fun line text => tagLine line (SourceLine.parse (String.ofList text))

/-- All the values of a list, or its first failure. -/
def collect {ε α : Type} : List (Except ε α) → Except ε (List α)
  | [] => .ok []
  | .error e :: _ => .error e
  | .ok a :: rest =>
    match collect rest with
    | .error e => .error e
    | .ok as => .ok (a :: as)

/-- The record of a line that was read. -/
def resolveLine (line : Nat) : Except Fault SourceLine → Except Fault Record
  | .error f => .error f
  | .ok l => tagLine line l.resolve

/-- The listing of a source text, with one record per line. -/
def Listing.ofSource (source : String) : Except Fault Listing :=
  match collect ((tokenize source).mapIdx resolveLine) with
  | .error f => .error f
  | .ok records => .ok ⟨records⟩

/-- The program of a source text. -/
def Program.assemble (source : String) : Except Fault Program :=
  match Listing.ofSource source with
  | .error f => .error f
  | .ok p => ofListing p

/-! ## One record per line -/

@[simp] theorem length_tokenize (source : String) :
    (tokenize source).length = (lines source.toList).length := by
  simp [tokenize]

end StackMachine
