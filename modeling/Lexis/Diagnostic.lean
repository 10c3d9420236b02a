import Lexis.Session

/-!
# `Lexis.Diagnostic`: problems with the line they are on

A diagnostic shows the name of a problem and its tip, the place, and below it the line of
the source with a caret under the start of the problem:

```text
error: MalformedNumber (Invalid number: `1.2.3`, a number may contain at most one `.`)
-> main.erys:1:9
  |
1 | let a = 1.2.3;
  | --------^
```

The line is shown without the blanks at its start, and the caret moves to the left with it.
The caret's place is counted in bytes. A problem that lies outside of the source has no
line to show.

* `Diagnostic.padStart_eq_ok`, `Diagnostic.padStart_eq_error`: a line can be padded up to
  `paddingLimit`.
-/

set_option autoImplicit false

namespace Lexis.Diagnostic

/-- A text with characters `fill` in front, so that it has `width` characters. A text that is
already as wide is left as it is. A width past `paddingLimit` is a fault, whatever the text. -/
def padStart (fill : Char) (width : Nat) (text : String) : Checked String :=
  if paddingLimit < width then throw (.paddingTooWide width)
  else return String.ofList (List.replicate (width - text.length) fill) ++ text

/-- Up to `paddingLimit` the padding succeeds. What is missing is counted in characters, and a
text that is wide enough gets none. -/
theorem padStart_eq_ok {fill : Char} {width : Nat} {text : String} (h : width ≤ paddingLimit) :
    padStart fill width text
      = .ok (String.ofList (List.replicate (width - text.length) fill) ++ text) := by
  rw [padStart, if_neg (Nat.not_lt.mpr h)]
  rfl

/-- Past `paddingLimit` the padding faults, and the fault names the width that was asked for. The
text plays no part: even one of that many characters is refused. -/
theorem padStart_eq_error {fill : Char} {width : Nat} {text : String} (h : paddingLimit < width) :
    padStart fill width text = .error (.paddingTooWide width) := by
  rw [padStart, if_pos h]
  rfl

/-- Whether a character is left out at the start of a shown line. -/
def isIndent (c : Char) : Bool := c == ' ' || c == '\t'

/-- The word that a diagnostic begins with. -/
def errorWord (useColor : Bool) : String :=
  if useColor then "\x1b[1;31merror\x1b[0m" else "error"

/-- The first line of a diagnostic. -/
def header (useColor : Bool) (cause : Cause) : String :=
  let remark :=
    match cause.tip? with
    | none => ""
    | some tip => " (" ++ tip ++ ")"
  errorWord useColor ++ ": " ++ cause.name ++ remark ++ "\n"

/-- The file as a diagnostic names it. -/
def place (s : Session) (directory : List String) : String :=
  (s.relativePath? directory).getD "<input>"

/-- The lines of a diagnostic from the place on, for a problem in the source. The bar and the
number share one margin, so the bars of the second and the last line stand below each other. The
dashes are as many as bytes stand in front of the problem on its line, less the indent. -/
def body (s : Session) (directory : List String) (location : Location) : Checked String := do
  let number := toString location.line
  let padding := number.length + 2
  let line := ((s.lineText? location.line).getD "").toList
  let shown := line.dropWhile isIndent
  let indent := line.length - shown.length
  let arrows := location.column - 1 - indent + 1
  let bar ← padStart ' ' padding "|"
  let caret ← padStart '-' arrows "^"
  return "-> " ++ place s directory ++ ":" ++ number ++ ":" ++ toString location.column ++ "\n"
    ++ bar ++ "\n"
    ++ number ++ " | " ++ Text.trimEnd (String.ofList shown) ++ "\n"
    ++ bar ++ " " ++ caret ++ "\n"

/-- A problem as it is shown in a session, to a reader in a directory. A span that starts past the
end of the source has no line to show, and the place is shown without line and column. The only
fault is a line too long to put dashes below it. -/
def render (problem : Problem) (s : Session) (directory : List String) : Checked String := do
  match ← s.resolve problem.span with
  | .error _ => return header s.useColor problem.cause ++ "-> " ++ place s directory ++ "\n"
  | .ok location => return header s.useColor problem.cause ++ (← body s directory location)

end Lexis.Diagnostic
