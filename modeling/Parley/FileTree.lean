import Parley.CommandFault
set_option autoImplicit false

/-!
# Files in memory

The files that a command can come across, as a value, so that a command can be performed without a disk.
A path is followed name by name from the root or from the working directory.  Each name but the last must
lead to a directory, also where the next name would lead back out of it.  A file that is missing can be
made in a directory that exists.
-/

namespace Parley

/-- A file that keeps no bytes. -/
inductive Device where
  /-- Empty; takes everything. -/
  | null
  /-- Takes nothing. -/
  | full
  /-- What the tool is given to read. -/
  | input
  /-- What the tool prints. -/
  | output
  /-- What the tool complains about, which is not kept. -/
  | complaints

/-- What stands in a directory under a name. -/
inductive FileEntry where
  | directory
  | file (bytes : List UInt8)
  | device (d : Device)

/-- All files, with what the tool is given to read and what it has printed. -/
structure FileTree where
  /-- Everything but the root, by the names on the way from there. -/
  entries : List (List String × FileEntry)
  input : List UInt8
  output : String

/-- What a path leads to. -/
inductive Destination where
  | found (place : List String) (entry : FileEntry)
  /-- Nothing, in a directory that exists. -/
  | fresh (place : List String)
  /-- Nothing, and nothing can be made there. -/
  | nowhere

namespace FileTree

/-! ## Paths -/

/-- The greatest size of a name in bytes. -/
def nameLimit : Nat := 255

/-- The greatest size of a path in bytes. -/
def pathLimit : Nat := 4095

/-- Whether a file can have this name. -/
def isName (name : String) : Bool := name.utf8ByteSize ≤ nameLimit && !name.contains '\x00'

/-- The names in a path. -/
def names (path : String) : List String := (path.toList.splitOn '/').map String.ofList

/-- The directory in which relative paths start. -/
def workingDirectory : List String := ["tmp", "work"]

/-- Follow names from the directory at `place`. -/
def follow (tree : FileTree) (place : List String) : List String → Destination
  | [] => .found place .directory
  | "" :: rest | "." :: rest => tree.follow place rest
  | ".." :: rest => tree.follow place.dropLast rest
  | name :: rest =>
    let next := place ++ [name]
    match tree.entries.lookup next with
    | some .directory => tree.follow next rest
    | some entry => if rest.isEmpty then .found next entry else .nowhere
    | none => if rest.isEmpty && isName name then .fresh next else .nowhere

/-- What a path leads to. -/
def find (tree : FileTree) (path : String) : Destination :=
  if path.isEmpty || path.utf8ByteSize > pathLimit then .nowhere
  else tree.follow (if path.startsWith "/" then [] else workingDirectory) (names path)

/-! ## Reading and writing -/

/-- The tree with an entry at a place. -/
def put (tree : FileTree) (place : List String) (entry : FileEntry) : FileTree :=
  { tree with entries := (place, entry) :: tree.entries.filter (·.1 ≠ place) }

/-- The tree after the tool has printed a text. -/
def print (tree : FileTree) (text : String) : FileTree := { tree with output := tree.output ++ text }

/-- What is found at a path.  What the tool is given to read can be read once. -/
def read (path : String) : StateM FileTree FileState := fun tree =>
  match tree.find path with
  | .found _ (.file bytes) => (.content bytes, tree)
  | .found _ (.device .null) => (.content [], tree)
  | .found _ (.device .input) => (.content tree.input, { tree with input := [] })
  | .found _ _ => (.unreadable, tree)
  | .fresh _ | .nowhere => (.missing, tree)

/-- The tree with new content of the file at a path, if that can be written. -/
def write? (tree : FileTree) (path : String) (bytes : List UInt8) : Option FileTree :=
  match tree.find path with
  | .fresh place | .found place (.file _) => some (tree.put place (.file bytes))
  | .found _ (.device .output) => some (tree.print (String.ofList (Text.decodeLossy bytes)))
  | .found _ (.device .full) => if bytes.isEmpty then some tree else none
  | .found _ (.device _) => some tree
  | .found _ .directory | .nowhere => none

/-! ## Trees to start from -/

/-- The directories that hold no files of the tool. -/
def commonDirectories : List String :=
  ["bin", "dev", "etc", "home", "opt", "proc", "root", "sys", "tmp", "usr", "var"]

/-- The places of the devices below the directory for them. -/
def devicePlaces : List (List String × Device) := [
  (["null"], .null), (["full"], .full), (["stdin"], .input), (["stdout"], .output),
  (["stderr"], .complaints), (["fd", "0"], .input), (["fd", "1"], .output),
  (["fd", "2"], .complaints)]

/-- The tree with an empty working directory. -/
def start (input : List UInt8) : FileTree where
  entries :=
    commonDirectories.map (fun name => ([name], .directory)) ++
    [(workingDirectory, .directory), (["dev", "fd"], .directory)] ++
    devicePlaces.map fun (place, device) => ("dev" :: place, .device device)
  input
  output := ""

/-- The places of the directories that a relative path goes through. -/
def parents (path : String) : List (List String) :=
  let parts := (names path).dropLast.filter fun name => name ≠ "" && name ≠ "."
  (List.range parts.length).map fun count => workingDirectory ++ parts.take (count + 1)

/-- The tree with a file in the working directory or below it, and the directories on the way there. -/
def withFile (tree : FileTree) (path : String) (bytes : List UInt8) : FileTree :=
  let missing := (parents path).filter fun place => (tree.entries.lookup place).isNone
  let prepared := missing.foldl (fun tree place => tree.put place .directory) tree
  (prepared.write? path bytes).getD prepared

end FileTree

end Parley
