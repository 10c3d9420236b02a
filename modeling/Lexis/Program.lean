import Lexis.CommandLine
import Lexis.Diagnostic

/-!
# `Lexis.Program`: the lexer as a command

The command lists the tokens of a file, one per line, and after them the problems of the
file. Its exit code says whether there were any. What it prints depends on its arguments
and on what can be read, and on nothing else.

* `Program.runSession`: the listing of a source, or the problems that it has.
* `Program.run`: the outcome of a command line, for a file system.
-/

set_option autoImplicit false

namespace Lexis.Program

/-- What a run prints and the code it exits with. -/
structure Outcome where
  exitCode : Nat
  output : String
  deriving DecidableEq, Repr, Inhabited

/-- The exit code of a run without problems. -/
def success : Nat := 0

/-- The exit code of a run that met problems. -/
def failure : Nat := 1

/-- The exit code for a wrong command line. -/
def misuse : Nat := 2

/-- The exit code of a run that broke off at a fault. -/
def aborted : Nat := 101

/-- The name and the number of the version. -/
def versionText : String := "erysc 0.1.0\n"

/-- The description of the command line. -/
def helpText : String :=
  String.join <| List.map (· ++ "\n")
    ["Proto compiler for the Erys language",
      "",
      "Usage: erysc [OPTIONS] [INPUT]",
      "",
      "Arguments:",
      "  [INPUT]  Input file to compile",
      "",
      "Options:",
      "      --no-color          Disable colored diagnostics",
      "      --error-tokens      Emit malformed numbers as `Unknown` tokens instead of stopping",
      "      --delimited-quotes  Include the quotes in quoted literal spans",
      "      --no-comments       Lex `//` and `/*` as slashes rather than comments",
      "  -v, --verbose...        Increase log verbosity (-v debug, -vv trace)",
      "  -h, --help              Print help",
      "  -V, --version           Print version"]

/-- The choices of the lexer that a command line makes. -/
def config (options : CommandLine.Options) : Config where
  comments := !options.noComments
  malformedNumber := if options.errorTokens then .errorToken else .suppress
  quoteSpan := if options.delimitedQuotes then .delimited else .content

/-- The outcome of showing problems after `printed`. A fault breaks off the run. -/
def showProblems (session : Session) (directory : List String) (printed : String) :
    List Problem → Outcome
  | [] => ⟨failure, printed⟩
  | problem :: rest =>
    match Diagnostic.render problem session directory with
    | .ok text => showProblems session directory (printed ++ text) rest
    | .error _ => ⟨aborted, printed⟩

/-- The listing of tokens, a line each. -/
def listing (tokens : List Token) : String := String.join (tokens.map (·.display ++ "\n"))

/-- The outcome of a run on a session. -/
def runSession (options : CommandLine.Options) (directory : List String) (session : Session) :
    Outcome :=
  match TokenStream.ofLexer (Lexer.start session.source (config options)) with
  | .error _ => ⟨aborted, ""⟩
  | .ok stream =>
    match stream.problems with
    | [] => ⟨success, listing stream.tokens⟩
    | problems => showProblems session directory (listing stream.tokens) problems

/-- The outcome of a run with an input. -/
def runInput (fs : FileSystem) (options : CommandLine.Options) (input : String) : Outcome :=
  match Session.load fs input with
  | .error problem => ⟨failure, "error: " ++ problem.message ++ "\n"⟩
  | .ok session =>
    runSession options fs.currentDirectory { session with useColor := !options.noColor }

/-- The outcome of a run with arguments. -/
def run (fs : FileSystem) (arguments : List String) : Outcome :=
  match CommandLine.parse arguments with
  | .error _ => ⟨misuse, ""⟩
  | .ok .help => ⟨success, helpText⟩
  | .ok .version => ⟨success, versionText⟩
  | .ok (.run options) =>
    match options.input with
    | none => ⟨failure, "error: No input file\n"⟩
    | some input => runInput fs options input

end Lexis.Program
