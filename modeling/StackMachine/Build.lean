import StackMachine.Diagnostic
import StackMachine.FileTree
import StackMachine.Log

/-!
# Building images

Building reads a source file, assembles it and writes the image next to it or to a given path.
Nothing is written unless the source assembles, and where writing fails the output is removed.

* `Build.ofSource`: the program of a source file that was read, with what is logged about it.
* `Build.run`: the whole build on a file tree.
-/

namespace StackMachine

/-- The path of the image of a source file, unless another one is given. -/
def imagePath (source : String) : String :=
  source ++ ".emu"

/-- Reading a file as text fails if it is not UTF-8. -/
def notUtf8 : String := "stream did not contain valid UTF-8"

namespace Build

/-- What is suspicious about a program that is valid nonetheless. -/
def warnings (path : String) (p : Program) : List Log.Entry :=
  (if p.finish?.isNone then [⟨.warn, s!"{path}: program has no END command"⟩] else []) ++
    p.symbols.unresolvedLabels.map fun label =>
      ⟨.warn, s!"{path}: label \"{label}\" is used but never defined"⟩

/-- Assembles the text of a source file. -/
def ofText (path text : String) : Except Fault Program × List Log.Entry :=
  match Program.assemble text with
  | .error f => (.error f, [⟨.error, Diagnostic.ofFault path text f⟩])
  | .ok p => (.ok p, warnings path p)

/-- Assembles a source file, given its content or the reason why it cannot be read. -/
def ofSource (path : String) (content : Except String Bytes) :
    Except Fault Program × List Log.Entry :=
  match content with
  | .error reason => (.error (.cause (.fileError path reason)), [])
  | .ok bytes =>
    match ofUtf8? bytes with
    | none => (.error (.cause (.fileError path notUtf8)), [])
    | some text => ofText path text

/-- What is logged about an image that was written. -/
def success (source : String) (p : Program) (output : String) : Log.Entry :=
  ⟨.info, s!"assembled {source} ({p.length} lines, {p.image.length} bytes) into {output}"⟩

/-- How a build ended. -/
structure Result where
  /-- The path of the image, or what went wrong. -/
  answer : Except Fault String
  tree : FileTree
  entries : List Log.Entry

/-- Builds the image of a source file; `ending` is how writing it ends. -/
def run (t : FileTree) (ending : FileTree.WriteEnd) (source : String) (output : Option String) :
    Result :=
  match ofSource source ((t.read source).mapError PathError.message) with
  | (.error f, entries) => ⟨.error f, t, entries⟩
  | (.ok p, entries) =>
    let output := output.getD (imagePath source)
    match t.write ending output p.image with
    | (.error reason, t) => ⟨.error (.cause (.fileError output reason)), t.remove output, entries⟩
    | (.ok (), t) => ⟨.ok output, t, entries ++ [success source p output]⟩

end Build

end StackMachine
