import Lexis.Event
import Lexis.FileSystem
import Lexis.Location

/-!
# `Lexis.Session`: a source and where it came from

A session holds a source with its line table, the path it was read from, and whether
messages about it are colored.

* `Session.load_eq_ok_iff`: loading succeeds on the readable regular files, and gives the
  session of what was read.
* `Session.load_eq_ok`: so it does on a file with the bytes of a source.
-/

set_option autoImplicit false

namespace Lexis

/-- A source, its lines, its path, and how to write about it. The table is kept with the source,
so that a span is resolved without reading the source again. -/
structure Session where
  source : Source
  lines : LineTable
  path : Option String := none
  useColor : Bool := true

namespace Session

/-- The session of a source that came from no file. -/
def ofSource (source : Source) : Session :=
  { source := source, lines := LineTable.ofSource source }

/-- The session with a path, which must lead to a regular file. -/
def setPath (s : Session) (fs : FileSystem) (path : String) : Except Problem Session :=
  if fs.isFile path then .ok { s with path := some path }
  else .error ⟨.invalidPath path, {}⟩

/-- The source in the file at a path. -/
def readSource (fs : FileSystem) (path : String) : Except ReadFailure Source := do
  match Source.ofString? (← fs.readText path) with
  | some source => return source
  | none => throw .fileTooLarge

/-- The session of the file at a path. -/
def load (fs : FileSystem) (path : String) : Except Problem Session :=
  match readSource fs path with
  | .error failure => .error ⟨.unreadableSource path failure.reason, {}⟩
  | .ok source => (ofSource source).setPath fs path

/-- Loading succeeds when the bytes at the path can be read as a source and the path leads to a
regular file, and then the session is that of what was read. The reading comes first: of a path
that fails on both counts, it is the reading that is reported. -/
theorem load_eq_ok_iff {fs : FileSystem} {path : String} {s : Session} :
    load fs path = .ok s ↔ ∃ source, readSource fs path = .ok source ∧ fs.isFile path = true ∧
      s = { ofSource source with path := some path } := by
  rw [load]
  cases hread : readSource fs path with
  | error failure => simp
  | ok source =>
      cases hfile : fs.isFile path <;> simp [setPath, hfile, eq_comm]

/-- A file with the bytes of a source gives the session of the source. The bytes need no check for
UTF-8 of their own, since a source is text. -/
theorem load_eq_ok {fs : FileSystem} {path : String} {source : Source}
    (hread : fs.read path = .ok source.bytes) (hfile : fs.isFile path = true) :
    load fs path = .ok { ofSource source with path := some path } := by
  refine load_eq_ok_iff.mpr ⟨source, ?_, hfile, rfl⟩
  have hsource : Source.ofString? source.text = some source := Source.ofString?_eq_some_iff.mpr rfl
  rw [source.bytes_eq] at hread
  simp only [readSource, FileSystem.readText_eq_ok hread, bind, Except.bind, hsource]
  rfl

/-- The report of loading the file at a path. -/
def loadEvents (fs : FileSystem) (path : String) : List Event :=
  match load fs path with
  | .error _ => []
  | .ok s => [.loaded path s.source.size s.lines.count]

/-- The name of the file, if the path has one. -/
def fileName? (s : Session) : Option String := s.path.bind Path.fileName?

/-- The path from a directory to the file. -/
def relativePath? (s : Session) (directory : List String) : Option String :=
  s.path.map (Path.relativeTo directory)

/-- The text of a line, which has a number from one on, without its line break. -/
def lineText? (s : Session) (line : Nat) : Option String := s.lines.lineText? s.source line

/-- Where a span lies in the source. -/
def resolve (s : Session) (span : Span) : Checked (Except Problem Location) :=
  span.resolve s.source s.lines s.fileName?

end Session

end Lexis
