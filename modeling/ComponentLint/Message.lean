import ComponentLint.Json.Decoder
import ComponentLint.Text.Basic

/-!
# Lint messages

What the linter reports, and what is reported to the user.  Lines and columns count from one, and
zero stands for an unknown one.

## Main definitions

* `Severity`, `Fix`, `Message` — the parts of a report.
* `Message.sort` — messages by line, then column.
* `Message.decode`, `Message.encode` — the linter's wire format.
-/

namespace ComponentLint

/-- How bad it is. -/
inductive Severity where
  | warning
  | error
  deriving DecidableEq, Repr

/-- A proposed edit: replace the bytes from `start` up to `stop` by `text`. -/
structure Fix where
  start : Nat
  stop : Nat
  text : Text
  deriving DecidableEq, Repr

/-- A lint message. -/
structure Message where
  /-- The rule or compiler code that speaks. -/
  ruleId : Option String := none
  severity : Severity
  text : String
  line : Nat := 0
  column : Nat := 0
  endLine : Option Nat := none
  endColumn : Option Nat := none
  /-- The kind of syntax node that is meant. -/
  nodeType : Option String := none
  fix : Option Fix := none
  deriving DecidableEq, Repr

namespace Message

/-- The rule that speaks, or the empty name. -/
def rule (m : Message) : String := m.ruleId.getD ""

/-- Messages come in order of line, then column. -/
def notAfter (a b : Message) : Bool :=
  a.line < b.line || (a.line == b.line && a.column ≤ b.column)

/-- Sorts messages by line, then column; messages at one position keep their order. -/
def sort (messages : List Message) : List Message := messages.mergeSort notAfter

end Message

/-! ### Wire format -/

open Json

/-- Severities are written as numbers. -/
def Severity.toNat : Severity → Nat
  | .warning => 1
  | .error => 2

/-- The severity that a number stands for. -/
def Severity.decode : Decoder Severity := fun n j =>
  match Decoder.below 256 n j with
  | some 1 => some .warning
  | some 2 => some .error
  | _ => none

/-- A pair of offsets. -/
def decodeRange : Decoder (Nat × Nat)
  | n, .array [start, stop] => do
    let inner ← n.enter
    return (← Decoder.word inner start, ← Decoder.word inner stop)
  | _, _ => none

/-- The wire format of a fix. -/
def Fix.encode (f : Fix) : Json :=
  .object [("range", .array [.ofNat f.start, .ofNat f.stop]), ("text", ofText f.text)]

/-- Reads the wire format of a fix. -/
def Fix.decode : Decoder Fix := fun n j => do
  let r ← Decoder.row [⟨"range", none⟩, ⟨"text", none⟩] n j
  let (start, stop) ← r.required "range" decodeRange
  return ⟨start, stop, ← r.required "text" Decoder.text⟩

namespace Message

/-- The wire format of a message. -/
def encode (m : Message) : Json :=
  .object <|
    [("ruleId", orNull .string m.ruleId), ("severity", .ofNat m.severity.toNat),
      ("message", .string m.text), ("line", .ofNat m.line), ("column", .ofNat m.column)]
    ++ memberIfSome "endLine" Json.ofNat m.endLine
    ++ memberIfSome "endColumn" Json.ofNat m.endColumn
    ++ memberIfSome "nodeType" Json.string m.nodeType
    ++ memberIfSome "fix" Fix.encode m.fix

/-- The fields of a message, in their order. -/
def fields : List Field :=
  [⟨"ruleId", none⟩, ⟨"severity", none⟩, ⟨"message", none⟩, ⟨"line", none⟩, ⟨"column", none⟩,
    ⟨"endLine", none⟩, ⟨"endColumn", none⟩, ⟨"nodeType", none⟩, ⟨"fix", none⟩]

/-- Reads the wire format of a message. -/
def decode : Decoder Message := fun n j => do
  let r ← Decoder.row fields n j
  return {
    ruleId := ← r.optional "ruleId" Decoder.string
    severity := ← r.required "severity" Severity.decode
    text := ← r.required "message" Decoder.string
    line := ← r.orElse "line" 0 Decoder.word
    column := ← r.orElse "column" 0 Decoder.word
    endLine := ← r.optional "endLine" Decoder.word
    endColumn := ← r.optional "endColumn" Decoder.word
    nodeType := ← r.optional "nodeType" Decoder.string
    fix := ← r.optional "fix" Fix.decode }

end Message

end ComponentLint
