import ComponentLint.Position
import ComponentLint.SourceMap.Segment
import ComponentLint.Text.Basic
import ComponentLint.Text.Quoted

/-!
# Reading mappings

The `mappings` of a source map are written in base 64: `;` ends a line, `,` ends a segment, and a
segment is a row of numbers in variable-length digits, each the difference to the same field of
the segment before.  The generated column starts anew on every line.

The reader goes through the text one character at a time.  A number that is still open when a
separator comes stays open: its digits go on after the separator.

## Main definitions

* `Mappings.digit? c` — the value of a base 64 digit.
* `Mappings.Reader`, `Mappings.Reader.step` — the state of reading and its step on a character.
* `Mappings.decode t` — the mappings written in `t`.
* `Mappings.originAt m place` — where a place of the generated text comes from.
* `MappingError` — why a text is not the writing of mappings.
-/

namespace ComponentLint

/-- Why a text is not the writing of mappings.  Positions count bytes. -/
inductive MappingError where
  /-- A character that is neither a separator nor a digit. -/
  | invalidCharacter (c : Char) (position : Nat)
  /-- A segment whose number of fields is not one, four or five. -/
  | invalidSegment (fields position : Nat)
  /-- A number with too many digits. -/
  | overflow (position : Nat)
  /-- The text ends inside a number. -/
  | unterminated
  deriving DecidableEq, Repr

/-- The wording of a mapping error. -/
def MappingError.message : MappingError → String
  | .invalidCharacter c position =>
    "invalid character " ++ Text.quoteChar c ++ " at position " ++ toString position
  | .invalidSegment fields position =>
    "invalid segment with " ++ toString fields ++ " fields ending at position "
      ++ toString position
  | .overflow position => "value overflows 32 bits at position " ++ toString position
  | .unterminated => "unterminated value at end of mappings"

namespace Mappings

/-- The value of a base 64 digit.  The padding character counts as one more digit. -/
def digit? (c : Char) : Option Nat :=
  if 'A' ≤ c ∧ c ≤ 'Z' then some (c.toNat - 'A'.toNat)
  else if 'a' ≤ c ∧ c ≤ 'z' then some (c.toNat - 'a'.toNat + 26)
  else if '0' ≤ c ∧ c ≤ '9' then some (c.toNat - '0'.toNat + 52)
  else if c = '+' then some 62
  else if c = '/' then some 63
  else if c = '=' then some 64
  else none

/-- The difference a number stands for: the lowest bit is the sign, the others the magnitude,
cut to 32 bits.  The negative zero stands for the least word. -/
def difference (value : Nat) : Int32 :=
  let magnitude := Int32.ofNat (value / 2)
  if value % 2 = 0 then magnitude
  else if magnitude = 0 then Int32.minValue
  else -magnitude

/-- The running value of each field. -/
structure Totals where
  column : Int32 := 0
  source : Int32 := 0
  line : Int32 := 0
  sourceColumn : Int32 := 0
  name : Int32 := 0
  deriving DecidableEq, Repr

/-- Adds a difference to the field with the given number. -/
def Totals.add (t : Totals) (d : Int32) : Nat → Totals
  | 0 => { t with column := t.column + d }
  | 1 => { t with source := t.source + d }
  | 2 => { t with line := t.line + d }
  | 3 => { t with sourceColumn := t.sourceColumn + d }
  | 4 => { t with name := t.name + d }
  | _ => t

/-- The state of reading. -/
structure Reader where
  /-- Bytes read so far. -/
  position : Nat := 0
  /-- The running value of each field. -/
  totals : Totals := {}
  /-- Fields of the current segment read so far. -/
  count : Nat := 0
  /-- The digits of the current number read so far. -/
  value : Nat := 0
  /-- How far the next digit is shifted; zero between numbers. -/
  shift : Nat := 0
  /-- Segments of the current line, the last one first. -/
  line : List Segment := []
  /-- The finished lines, the last one first. -/
  lines : Mappings := []
  deriving DecidableEq, Repr

namespace Reader

/-- Ends the current segment.  A segment without fields leaves no trace. -/
def endSegment (r : Reader) : Except MappingError Reader :=
  let origin (name : Option Int32) : Option Origin :=
    some ⟨r.totals.source, r.totals.line, r.totals.sourceColumn, name⟩
  let push (origin : Option Origin) : Reader :=
    { r with count := 0, line := ⟨r.totals.column, origin⟩ :: r.line }
  match r.count with
  | 0 => .ok r
  | 1 => .ok (push none)
  | 4 => .ok (push (origin none))
  | 5 => .ok (push (origin (some r.totals.name)))
  | fields => .error (.invalidSegment fields r.position)

/-- Ends the current line.  The generated column starts anew. -/
def endLine (r : Reader) : Reader :=
  { r with lines := r.line.reverse :: r.lines, line := [], totals := { r.totals with column := 0 } }

/-- Reads a digit of the given value. -/
def readDigit (r : Reader) (digit : Nat) : Except MappingError Reader :=
  if 30 < r.shift then .error (.overflow r.position)
  else
    let value := r.value + (digit % 32) <<< r.shift
    if digit / 32 % 2 = 1 then .ok { r with value := value, shift := r.shift + 5 }
    else if r.count = 5 then .error (.invalidSegment 6 r.position)
    else
      .ok { r with
        totals := r.totals.add (difference value) r.count
        count := r.count + 1
        value := 0
        shift := 0 }

/-- Reads one character. -/
def step (r : Reader) (c : Char) : Except MappingError Reader := do
  let next ←
    if c = ',' then r.endSegment
    else if c = ';' then endLine <$> r.endSegment
    else
      match digit? c with
      | none => .error (.invalidCharacter c r.position)
      | some digit => r.readDigit digit
  return { next with position := r.position + c.utf8Size }

/-- Ends the text. -/
def finish (r : Reader) : Except MappingError Mappings := do
  if r.shift ≠ 0 then .error .unterminated
  else return (← r.endSegment).endLine.lines.reverse

end Reader

/-- The mappings written in a text. -/
def decode (t : Text) : Except MappingError Mappings :=
  t.foldlM Reader.step {} >>= Reader.finish

/-- The segment that covers a column: the first one whose successor, if it has one, starts after
the column while the segment itself does not. -/
def covering (column : Nat) : Segment → List Segment → Segment
  | s, [] => s
  | s, next :: rest =>
    if s.column.toInt ≤ column ∧ (column : Int) < next.column.toInt then s
    else covering column next rest

/-- Where a place of the generated text comes from.  On a line without segments it is where the
last segment of the lines before comes from. -/
def originAt (m : Mappings) (place : Place) : Option Origin :=
  match m[place.line]? with
  | some (s :: rest) => (covering place.column s rest).origin
  | _ => (m.take place.line).flatten.getLast?.bind Segment.origin

end Mappings

end ComponentLint
