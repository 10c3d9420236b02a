import Lexis.Path
import Lexis.Text.Utf8

/-!
# `Lexis.FileSystem`: where sources are read from

Programs see files through a `FileSystem`, which says what reading a path gives and whether
a path leads to a regular file. A `FileTree` is a file system written out: what stands at
which place. Its paths are followed step by step, and a step fails where it is taken, not
where the path leads in the end.

* `FileSystem.readText_eq_ok`: reading gives the text whose bytes a file holds.
-/

set_option autoImplicit false

namespace Lexis

/-- Why a file cannot be read as text. -/
inductive ReadFailure where
  | notFound
  | notDirectory
  | isDirectory
  | nameTooLong
  | fileTooLarge
  | nulInName
  | invalidUtf8
  | other (reason : String)
  deriving DecidableEq, Repr, Inhabited

/-- A failure in words. -/
def ReadFailure.reason : ReadFailure → String
  | notFound => "No such file or directory (os error 2)"
  | notDirectory => "Not a directory (os error 20)"
  | isDirectory => "Is a directory (os error 21)"
  | nameTooLong => "File name too long (os error 36)"
  | fileTooLarge => "File too large (os error 27)"
  | nulInName => "file name contained an unexpected NUL byte"
  | invalidUtf8 => "stream did not contain valid UTF-8"
  | other reason => reason

/-- What programs see of files. -/
structure FileSystem where
  /-- The names from the root to the current directory. -/
  currentDirectory : List String
  /-- The bytes that reading a path gives. -/
  read : String → Except ReadFailure (List UInt8)
  /-- Whether a path leads to a regular file. -/
  isFile : String → Bool

/-- The text of the file at a path. -/
def FileSystem.readText (fs : FileSystem) (path : String) : Except ReadFailure String := do
  let bytes ← fs.read path
  match String.fromUTF8? bytes.toByteArray with
  | some text => return text
  | none => throw .invalidUtf8

/-- A file with the bytes of a text reads as the text. -/
theorem FileSystem.readText_eq_ok {fs : FileSystem} {path text : String}
    (h : fs.read path = .ok (Text.bytes text)) : fs.readText path = .ok text := by
  have hbytes : (Text.bytes text).toByteArray = text.toByteArray :=
    ByteArray.ext List.data_toByteArray
  have htext : String.fromUTF8? (Text.bytes text).toByteArray = some text := by
    rw [hbytes, String.fromUTF8?, dif_pos text.isValidUTF8]
    rfl
  simp only [readText, h, bind, Except.bind, htext]
  rfl

/-- What stands at a place of a file tree. -/
inductive Entry where
  | directory
  | file (contents : List UInt8)
  /-- Something that can be read but is no regular file. Nothing comes out of it. -/
  | device
  deriving DecidableEq, Repr, Inhabited

/-- A file system written out. Places are lists of names from the root, which always holds a
directory. Of several entries for one place the first counts. -/
structure FileTree where
  currentDirectory : List String
  entries : List (List String × Entry)
  deriving Repr, Inhabited

namespace FileTree

/-- Names are not longer than this many bytes. -/
def nameLimit : Nat := 255

/-- Paths have fewer bytes than this. -/
def pathLimit : Nat := 4096

/-- What stands at a place. -/
def entry? (tree : FileTree) (place : List String) : Option Entry :=
  if place.isEmpty then some .directory else tree.entries.lookup place

/-- The place that a step leads to. The root is above itself. -/
def placeAfter (place : List String) (step : String) : List String :=
  if step == Path.parent then place.dropLast else place ++ [step]

/-- The places that steps lead through from a place on, in order, the last one left out, and
the last one. -/
def walk (place : List String) : List String → List (List String) × List String
  | [] => ([], place)
  | step :: rest =>
    let (through, target) := walk (placeAfter place step) rest
    (place :: through, target)

/-- The tree with an entry at a path that starts in the current directory, and with
directories at all places on the way to it. -/
def insertAt (tree : FileTree) (path : String) (entry : Entry) : FileTree :=
  let (through, target) := walk [] (Path.stepsFrom tree.currentDirectory path)
  { tree with entries := (target, entry) :: through.map (·, .directory) ++ tree.entries }

/-- Takes one step from a place where an entry stands. Every step needs a directory, also
one that leads nowhere. -/
def step (tree : FileTree) (here : List String × Entry) (piece : String) :
    Except ReadFailure (List String × Entry) :=
  let (place, entry) := here
  if entry != .directory then throw .notDirectory
  else if Path.isIdle piece then return here
  else if piece == Path.parent then return (placeAfter place piece, .directory)
  else if nameLimit < piece.utf8ByteSize then throw .nameTooLong
  else
    match tree.entry? (placeAfter place piece) with
    | some entry => return (placeAfter place piece, entry)
    | none => throw .notFound

/-- The entry that a path leads to. -/
def resolve (tree : FileTree) (path : String) : Except ReadFailure Entry := do
  if path.toList.contains '\x00' then throw .nulInName
  if path.isEmpty then throw .notFound
  if pathLimit ≤ path.utf8ByteSize then throw .nameTooLong
  let start := if Path.isAbsolute path then [] else tree.currentDirectory
  let (_, entry) ← (Path.pieces path).foldlM tree.step (start, .directory)
  return entry

/-- The bytes that reading a path gives. -/
def read (tree : FileTree) (path : String) : Except ReadFailure (List UInt8) := do
  match ← tree.resolve path with
  | .directory => throw .isDirectory
  | .file contents => return contents
  | .device => return []

/-- Whether a path leads to a regular file. -/
def isFile (tree : FileTree) (path : String) : Bool :=
  match tree.resolve path with
  | .ok (.file _) => true
  | _ => false

/-- The tree as programs see it. -/
def fileSystem (tree : FileTree) : FileSystem where
  currentDirectory := tree.currentDirectory
  read := tree.read
  isFile := tree.isFile

end FileTree

end Lexis
