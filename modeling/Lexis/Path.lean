/-!
# `Lexis.Path`: names of files

A path is text in which slashes separate names. Read as a sequence of steps it loses what
does not lead anywhere, that is repeated slashes, a slash at the end and the name `.`, but
keeps `..`, which may lead out of a link.

* `Path.relativeTo`: the path that leads from a directory to where another path leads.
-/

set_option autoImplicit false

namespace Lexis.Path

/-- What stands between the slashes, which are those after `piece`, in reverse. -/
def piecesFrom (piece : List Char) : List Char → List String
  | [] => [String.ofList piece.reverse]
  | c :: rest =>
    if c == '/' then String.ofList piece.reverse :: piecesFrom [] rest
    else piecesFrom (c :: piece) rest

/-- What stands between the slashes of a path, empty pieces included. -/
def pieces (path : String) : List String := piecesFrom [] path.toList

/-- Whether a path starts at the root. -/
def isAbsolute (path : String) : Bool := path.toList.head? == some '/'

/-- The name of the step to the directory above. -/
def parent : String := ".."

/-- Whether a piece leads nowhere. -/
def isIdle (piece : String) : Bool := piece == "" || piece == "."

/-- The steps of a path, from the root if it is absolute. -/
def steps (path : String) : List String := (pieces path).filter (!isIdle ·)

/-- The steps from the root of a path that starts in a directory, if it is not absolute. -/
def stepsFrom (directory : List String) (path : String) : List String :=
  if isAbsolute path then steps path else directory ++ steps path

/-- The last name of a path, if the path ends with a name. -/
def fileName? (path : String) : Option String :=
  (steps path).getLast?.filter (· != parent)

/-- The two lists without the steps that both begin with. -/
def withoutCommon : List String → List String → List String × List String
  | a :: as, b :: bs => if a == b then withoutCommon as bs else (a :: as, b :: bs)
  | as, bs => (as, bs)

/-- The steps from `directory` to `target`: up until the two have their steps in common, and
down again. -/
def stepsBetween (directory target : List String) : List String :=
  let (up, down) := withoutCommon directory target
  up.map (fun _ => parent) ++ down

/-- The path from a directory to where a path leads that starts in that directory too. -/
def relativeTo (directory : List String) (path : String) : String :=
  "/".intercalate (stepsBetween directory (stepsFrom directory path))

end Lexis.Path
