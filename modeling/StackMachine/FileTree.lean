import StackMachine.Text.Utf8

/-!
# File trees

The directories and files below a working directory, and what reading, writing and removing a file
does to them. Paths are walked name by name from the working directory or, if they start with a
slash, from the root. Outside the working directory there are directories to walk up to, and there
is the null device `/dev/null`, which is empty and forgets what is written to it; no other name is
found there.

* `FileTree.target`: what a path leads to.
* `FileTree.read`: the content of a file.
* `FileTree.write`: creates a file or replaces its content. A disk may refuse to open the file, or
  break off while the content is written (`WriteEnd`).
* `FileTree.remove`: takes a file away.
-/

namespace StackMachine

/-! ## Trees -/

/-- Why a path cannot be used. -/
inductive PathError
  | notFound
  | notDirectory
  | isDirectory
  deriving DecidableEq, Repr

/-- The text that reports a path error. -/
def PathError.message : PathError → String
  | notFound => "No such file or directory (os error 2)"
  | notDirectory => "Not a directory (os error 20)"
  | isDirectory => "Is a directory (os error 21)"

/-- The names that lead from the working directory to a file or directory. -/
abbrev Place := List String

/-- What stands at a place. -/
inductive Node
  | directory
  | file (content : Bytes)
  deriving DecidableEq, Repr

/-- Files and directories by their places. The working directory itself is always there. -/
structure FileTree where
  entries : List (Place × Node) := []
  deriving DecidableEq, Repr

namespace FileTree

/-- What stands at a place. -/
def node? (t : FileTree) (place : Place) : Option Node :=
  if place = [] then some .directory else t.entries.lookup place

/-- The content of the file at a place. -/
def content? (t : FileTree) (place : Place) : Option Bytes :=
  match t.node? place with
  | some (.file content) => some content
  | _ => none

/-- Puts a node at a place, instead of what stands there. -/
def set (t : FileTree) (place : Place) (node : Node) : FileTree :=
  ⟨(place, node) :: t.entries.filter (·.1 != place)⟩

/-- Takes away what stands at a place. -/
def erase (t : FileTree) (place : Place) : FileTree :=
  ⟨t.entries.filter (·.1 != place)⟩

theorem lookup_filter_of_ne {place other : Place} (h : other ≠ place)
    (entries : List (Place × Node)) :
    (entries.filter (·.1 != place)).lookup other = entries.lookup other := by
  induction entries with
  | nil => rfl
  | cons e entries ih =>
    by_cases he : e.1 = place
    · have hne : (other == e.1) = false := by simpa [he] using h
      rw [List.filter_cons_of_neg (by simp [he]), ih, List.lookup_cons, hne]
    · rw [List.filter_cons_of_pos (by simp [he]), List.lookup_cons, List.lookup_cons, ih]

@[simp] theorem node?_set_self (t : FileTree) {place : Place} (node : Node) (h : place ≠ []) :
    (t.set place node).node? place = some node := by
  simp [node?, set, h]

/-- Setting a node changes no other place. -/
theorem node?_set_of_ne (t : FileTree) {place other : Place} (node : Node) (h : other ≠ place) :
    (t.set place node).node? other = t.node? other := by
  have hb : (other == place) = false := by simpa using h
  simp [node?, set, List.lookup_cons, hb, lookup_filter_of_ne h]

/-- Erasing a node changes no other place. -/
theorem node?_erase_of_ne (t : FileTree) {place other : Place} (h : other ≠ place) :
    (t.erase place).node? other = t.node? other := by
  simp [node?, erase, lookup_filter_of_ne h]

@[simp] theorem node?_erase_self (t : FileTree) {place : Place} (h : place ≠ []) :
    (t.erase place).node? place = none := by
  simp only [node?, erase, if_neg h]
  induction t.entries with
  | nil => rfl
  | cons e entries ih =>
    by_cases he : e.1 = place
    · rw [List.filter_cons_of_neg (by simp [he]), ih]
    · have hne : (place == e.1) = false := by simpa using Ne.symm he
      rw [List.filter_cons_of_pos (by simp [he]), List.lookup_cons, hne, ih]

/-! ## Paths -/

/-- The names between the slashes of a path. -/
def pathNames (path : String) : List String :=
  ((path.toList.splitOn '/').map String.ofList).filter (· != "")

/-- A path that starts with a slash leads out of the tree. -/
def isAbsolute (path : String) : Bool :=
  path.toList.head? == some '/'

/-- A path that ends with a slash names a directory. -/
def endsWithSlash (path : String) : Bool :=
  path.toList.getLast? == some '/'

/-- The directories that a path can lead through. -/
inductive Location
  /-- A directory of the tree. -/
  | inside (place : Place)
  /-- A directory above the working directory. -/
  | above
  | root
  /-- The directory of the devices, `/dev`. -/
  | devices
  deriving DecidableEq, Repr

namespace Location

/-- The directory above. -/
def parent : Location → Location
  | inside place => if place = [] then above else inside place.dropLast
  | above => above
  | root | devices => root

/-- The directory that a name leads to. -/
def enter (t : FileTree) (name : String) : Location → Except PathError Location
  | inside place =>
    match t.node? (place ++ [name]) with
    | none => .error .notFound
    | some (.file _) => .error .notDirectory
    | some .directory => .ok (inside (place ++ [name]))
  | above => .error .notFound
  | root => if name = "dev" then .ok devices else .error .notFound
  | devices => .error (if name = "null" then .notDirectory else .notFound)

end Location

/-- The directory where the walk along a path starts. -/
def startOf (path : String) : Location :=
  if isAbsolute path then .root else .inside []

/-- Walks through directories. The name `.` stays and `..` goes up. -/
def walk (t : FileTree) (l : Location) : List String → Except PathError Location
  | [] => .ok l
  | "." :: names => walk t l names
  | ".." :: names => walk t l.parent names
  | name :: names =>
    match l.enter t name with
    | .error e => .error e
    | .ok l => walk t l names

/-- What can be read and written. -/
inductive Target
  /-- A file of the tree, which may not be there yet. -/
  | file (place : Place)
  | nullDevice
  deriving DecidableEq, Repr

/-- What a name leads to that is no directory; whether there is a directory of that name in the
tree is not looked at. -/
def Location.target (name : String) : Location → Except PathError Target
  | inside place => .ok (.file (place ++ [name]))
  | above => .error .notFound
  | root => .error (if name = "dev" then .isDirectory else .notFound)
  | devices => if name = "null" then .ok .nullDevice else .error .notFound

/-- Walks the directories of a path and names its target. -/
def target (t : FileTree) (path : String) : Except PathError Target :=
  if path = "" then .error .notFound
  else
    match t.walk (startOf path) (pathNames path).dropLast with
    | .error e => .error e
    | .ok l =>
      match (pathNames path).getLast? with
      | none | some "." | some ".." => .error .isDirectory
      | some name => l.target name

/-! ## Reading and removing -/

/-- What a path leads to, if there is anything. -/
def existing (t : FileTree) (path : String) : Except PathError Target :=
  match t.target path with
  | .error e => .error e
  | .ok (.file place) =>
    match t.node? place with
    | none => .error .notFound
    | some .directory => .error .isDirectory
    | some (.file _) => if endsWithSlash path then .error .notDirectory else .ok (.file place)
  | .ok .nullDevice => if endsWithSlash path then .error .notDirectory else .ok .nullDevice

/-- The content of the file that a path leads to. -/
def read (t : FileTree) (path : String) : Except PathError Bytes :=
  match t.existing path with
  | .error e => .error e
  | .ok .nullDevice => .ok []
  | .ok (.file place) =>
    match t.content? place with
    | some content => .ok content
    | none => .error .notFound

/-- Removes the file that a path leads to; where there is none in the tree, nothing happens. -/
def remove (t : FileTree) (path : String) : FileTree :=
  match t.existing path with
  | .ok (.file place) => t.erase place
  | _ => t

/-! ## Writing -/

/-- How writing a file ends once its path leads somewhere. -/
inductive WriteEnd
  | success
  /-- The file is not opened, for the given reason. -/
  | refused (reason : String)
  /-- The file is opened, and emptied if it was there; then writing fails after some bytes. -/
  | brokenOff (written : Nat) (reason : String)
  deriving DecidableEq, Repr

/-- What writing to a path creates or replaces. -/
def writable (t : FileTree) (path : String) : Except PathError Target :=
  match t.target path with
  | .error e => .error e
  | .ok (.file place) =>
    if endsWithSlash path || t.node? place == some .directory then .error .isDirectory
    else .ok (.file place)
  | .ok .nullDevice => if endsWithSlash path then .error .isDirectory else .ok .nullDevice

/-- The tree after a file was opened for writing and took bytes. -/
def store (t : FileTree) (content : Bytes) : Target → FileTree
  | .file place => t.set place (.file content)
  | .nullDevice => t

/-- Writes a file: the reason if it fails, and the tree it leaves. -/
def write (t : FileTree) (ending : WriteEnd) (path : String) (content : Bytes) :
    Except String Unit × FileTree :=
  match t.writable path with
  | .error e => (.error e.message, t)
  | .ok target =>
    match ending with
    | .success => (.ok (), t.store content target)
    | .refused reason => (.error reason, t)
    | .brokenOff written reason => (.error reason, t.store (content.take written) target)

end FileTree

end StackMachine
