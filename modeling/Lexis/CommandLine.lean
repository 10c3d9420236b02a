/-!
# `Lexis.CommandLine`: what a command line asks for

Arguments are read from left to right. The first that asks for help or for the version
decides, and so does the first that is wrong. Flags are spelled out after two dashes, or
joined as single letters after one dash. Two dashes alone end the flags; one dash alone is
an input.

* `CommandLine.applyArgument`: what one argument adds to the choices so far.
* `CommandLine.parse`: what all of them ask for, or which one is wrong.
-/

set_option autoImplicit false

namespace Lexis.CommandLine

/-- The choices of a run. -/
structure Options where
  input : Option String := none
  noColor : Bool := false
  errorTokens : Bool := false
  delimitedQuotes : Bool := false
  noComments : Bool := false
  verbosity : Nat := 0
  deriving DecidableEq, Repr, Inhabited

/-- What a command line asks for. -/
inductive Request where
  | help
  | version
  | run (options : Options)
  deriving DecidableEq, Repr

/-- What is wrong with a command line. -/
inductive UsageError where
  | unknownFlag (argument : String)
  | unexpectedValue (argument : String)
  | repeatedFlag (name : String)
  | secondInput (argument : String)
  | emptyInput
  deriving DecidableEq, Repr

/-- The flags. -/
inductive Flag where
  | noColor | errorTokens | delimitedQuotes | noComments | verbose | help | version
  deriving DecidableEq, Repr

namespace Flag

/-- Every flag. -/
def all : List Flag :=
  [.noColor, .errorTokens, .delimitedQuotes, .noComments, .verbose, .help, .version]

/-- A flag as it is spelled out. -/
def long : Flag → String
  | noColor => "no-color"
  | errorTokens => "error-tokens"
  | delimitedQuotes => "delimited-quotes"
  | noComments => "no-comments"
  | verbose => "verbose"
  | help => "help"
  | version => "version"

/-- The letter of a flag that has one. -/
def short? : Flag → Option Char
  | verbose => some 'v'
  | help => some 'h'
  | version => some 'V'
  | _ => none

/-- The flag that is spelled out as a name. -/
def ofLong? (name : String) : Option Flag := all.find? (·.long == name)

/-- The flag with a letter. -/
def ofShort? (letter : Char) : Option Flag := all.find? (·.short? == some letter)

end Flag

/-- The choices so far, or what has been decided. -/
abbrev Progress := Except (Except UsageError Request) Options

/-- Decides that the command line is wrong. -/
def refuse (error : UsageError) : Progress := .error (.error error)

/-- Sets a choice, which must not be set yet. -/
def setOnce (isSet : Bool) (flag : Flag) (options : Options) : Progress :=
  if isSet then refuse (.repeatedFlag flag.long) else .ok options

/-- The choices after a flag. Only verbosity may be asked for again. -/
def applyFlag (options : Options) (flag : Flag) : Progress :=
  match flag with
  | .noColor => setOnce options.noColor flag { options with noColor := true }
  | .errorTokens => setOnce options.errorTokens flag { options with errorTokens := true }
  | .delimitedQuotes =>
    setOnce options.delimitedQuotes flag { options with delimitedQuotes := true }
  | .noComments => setOnce options.noComments flag { options with noComments := true }
  | .verbose => .ok { options with verbosity := options.verbosity + 1 }
  | .help => .error (.ok .help)
  | .version => .error (.ok .version)

/-- The choices after a flag that is spelled out. A flag takes no value. -/
def applyLong (options : Options) (argument : String) (text : List Char) : Progress :=
  match Flag.ofLong? (String.ofList (text.takeWhile (· != '='))) with
  | none => refuse (.unknownFlag argument)
  | some flag =>
    if text.contains '=' then refuse (.unexpectedValue argument) else applyFlag options flag

/-- The choices after a letter. -/
def applyLetter (argument : String) (options : Options) (letter : Char) : Progress :=
  match Flag.ofShort? letter with
  | none => refuse (.unknownFlag argument)
  | some flag => applyFlag options flag

/-- The choices with an input, of which there is at most one. -/
def applyInput (options : Options) (argument : String) : Progress :=
  if options.input.isSome then refuse (.secondInput argument)
  else if argument.isEmpty then refuse .emptyInput
  else .ok { options with input := some argument }

/-- The choices after an argument that may be a flag. -/
def applyArgument (options : Options) (argument : String) : Progress :=
  match argument.toList with
  | '-' :: '-' :: text => applyLong options argument text
  | '-' :: letter :: letters => (letter :: letters).foldlM (applyLetter argument) options
  | _ => applyInput options argument

/-- The choices after all arguments. -/
def applyAll (options : Options) : List String → Progress
  | [] => .ok options
  | argument :: rest =>
    if argument == "--" then rest.foldlM applyInput options
    else do applyAll (← applyArgument options argument) rest

/-- What a command line asks for, or what is wrong with it. -/
def parse (arguments : List String) : Except UsageError Request :=
  match applyAll {} arguments with
  | .ok options => .ok (.run options)
  | .error decided => decided

end Lexis.CommandLine
