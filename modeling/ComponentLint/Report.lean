import ComponentLint.Json.Printer
import ComponentLint.LineTable
import ComponentLint.Message

/-!
# Reports

Messages are printed in one of four formats, followed by a count except where a program reads the
output.

## Main definitions

* `Format` — the formats.
* `lineAt? source n` — the text of a line.
* `Format.render` — the printed messages.
* `Tally` — the numbers of errors and warnings.
-/

namespace ComponentLint

open Json

/-- The formats of a report. -/
inductive Format where
  | human
  /-- With the line that is meant. -/
  | humanVerbose
  | json
  /-- One line per message. -/
  | machine
  deriving DecidableEq, Repr

/-- The text of a line, from one, without the characters that break it. -/
def lineAt? (source : Text) (line : Nat) : Option Text :=
  let table := LineTable.ofText source
  match line with
  | 0 => none
  | index + 1 => do
    let start ← table.startOf? index
    let text ← Text.slice? source start ((table.startOf? (index + 1)).getD table.size)
    return (text.reverse.dropWhile fun c => c == '\n' || c == '\r').reverse

/-- The word for a severity. -/
def Severity.word : Severity → String
  | .error => "Error"
  | .warning => "Warning"

/-- The word for a severity in the format for machines. -/
def Severity.machineWord : Severity → String
  | .error => "ERROR"
  | .warning => "WARNING"

namespace Message

/-- The line on which a message ends. -/
def lastLine (m : Message) : Nat := m.endLine.getD m.line

/-- The column at which a message ends. -/
def lastColumn (m : Message) : Nat := m.endColumn.getD m.column

/-- Where a message stands, and what it says. -/
def heading (path : String) (m : Message) : String :=
  path ++ ":" ++ toString m.line ++ ":" ++ toString m.column ++ "\n"
    ++ m.severity.word ++ ": " ++ m.text ++ " (" ++ m.rule ++ ")\n"

/-- The line a message means, with a pointer to its column. -/
def snippet (source : Text) (m : Message) : String :=
  match lineAt? source m.line with
  | none => ""
  | some text =>
    let number := toString m.line
    let blanks (n : Nat) : String := String.ofList (Text.spaces n)
    "  " ++ number ++ " | " ++ String.ofList text ++ "\n"
      ++ "  " ++ blanks number.length ++ " | " ++ blanks (m.column - 1) ++ "^\n"

/-- A message for people. -/
def renderHuman (path : String) (m : Message) : String := m.heading path ++ "\n"

/-- A message for people, with the line it means. -/
def renderVerbose (path : String) (source : Text) (m : Message) : String :=
  m.heading path ++ m.snippet source ++ "\n"

/-- A message on one line. -/
def renderMachine (path : String) (m : Message) : String :=
  m.severity.machineWord ++ " " ++ path ++ ":" ++ toString m.line ++ ":" ++ toString m.column
    ++ ":" ++ toString m.lastLine ++ ":" ++ toString m.lastColumn ++ " " ++ m.text
    ++ " (" ++ m.rule ++ ")\n"

/-- A message as a JSON object. -/
def toJson (path : String) (m : Message) : Json :=
  let point (line column : Nat) : Json :=
    .object [("line", .ofNat line), ("column", .ofNat column)]
  .object <|
    [("type", .string m.severity.word), ("filename", .string path),
      ("start", point m.line m.column), ("end", point m.lastLine m.lastColumn),
      ("message", .string m.text), ("code", .string m.rule)]
    ++ memberIfSome "fix" Fix.encode m.fix

end Message

/-- The numbers of errors and warnings. -/
structure Tally where
  errors : Nat
  warnings : Nat
  deriving DecidableEq, Repr

namespace Tally

/-- Counts messages by severity. -/
def ofMessages (messages : List Message) : Tally where
  errors := messages.countP (·.severity = .error)
  warnings := messages.countP (·.severity = .warning)

/-- The last lines of a report. -/
def render (t : Tally) : String :=
  let counted (n : Nat) (word : String) : String :=
    toString n ++ " " ++ (if n = 1 then word else word ++ "s")
  "====================================\nhamber-lint found " ++ counted t.errors "error" ++ " and "
    ++ counted t.warnings "warning"

/-- Whether a run with these messages counts as failed. -/
def fails (t : Tally) (failOnWarnings : Bool) : Bool :=
  0 < t.errors || (0 < t.warnings && failOnWarnings)

end Tally

/-- What is printed for the messages on a file. -/
def Format.render (f : Format) (path : String) (source : Text) (messages : List Message) :
    String :=
  let counted (lines : List String) : String :=
    String.join lines ++ (Tally.ofMessages messages).render ++ "\n"
  match f with
  | .human => counted (messages.map (·.renderHuman path))
  | .humanVerbose => counted (messages.map (·.renderVerbose path source))
  | .machine => counted (messages.map (·.renderMachine path))
  | .json => (Json.array (messages.map (·.toJson path))).pretty "" ++ "\n"

end ComponentLint
