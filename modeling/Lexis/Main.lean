import Lexis.Program

/-!
# `Lexis.Main`: the command

All that happens here is reading the input and printing the outcome.
-/

set_option autoImplicit false

namespace Lexis.Command

/-- The number of an error of the operating system, which may come negated. -/
def errorNumber (code : UInt32) : Nat := min code.toNat (UInt32.size - code.toNat)

/-- Why an attempt to read did not succeed. -/
def readFailure : IO.Error → ReadFailure
  | .noFileOrDirectory .. => .notFound
  | .permissionDenied .. => .other "Permission denied (os error 13)"
  | .inappropriateType _ code details =>
    match errorNumber code with
    | 20 => .notDirectory
    | 21 => .isDirectory
    | _ => .other details
  | .invalidArgument _ code details =>
    if errorNumber code = 36 then .nameTooLong else .other details
  | error => .other (toString error)

/-- The bytes of the file at a path. -/
def readBytes (path : String) : IO (Except ReadFailure (List UInt8)) := do
  if path.toList.contains '\x00' then
    return .error .nulInName
  try
    let contents ← IO.FS.readBinFile path
    return .ok contents.data.toList
  catch error =>
    return .error (readFailure error)

/-- Whether a path leads to a regular file. -/
def isRegular (path : String) : IO Bool := do
  try
    let resolved ← IO.FS.realPath path
    let information ← resolved.metadata
    return information.type == .file
  catch _ =>
    return false

/-- The file system as far as a path is concerned. -/
def fileSystemAt (path : String) : IO FileSystem := do
  let directory ← IO.currentDir
  let contents ← readBytes path
  let regular ← isRegular path
  return {
    currentDirectory := Path.steps directory.toString
    read := fun _ => contents
    isFile := fun _ => regular }

/-- The input that arguments name. -/
def inputOf (arguments : List String) : String :=
  match CommandLine.parse arguments with
  | .ok (.run options) => options.input.getD ""
  | _ => ""

end Lexis.Command

open Lexis in
/-- Runs the command. -/
def main (arguments : List String) : IO UInt32 := do
  let fs ← Command.fileSystemAt (Command.inputOf arguments)
  let outcome := Program.run fs arguments
  IO.print outcome.output
  return outcome.exitCode.toUInt32
