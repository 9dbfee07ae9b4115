import ComponentLint.Position
import ComponentLint.Text.Basic

/-!
# Line tables

Turning byte offsets of a text into places and places into byte offsets.  A line feed, a carriage
return followed by a line feed, and a carriage return alone each end a line.  Conversions clamp
instead of failing: every offset has a place, and every place has an offset inside the text.

## Main definitions

* `endsLine c next?` — whether `c` ends a line when `next?` follows it.
* `LineTable.ofText t` — the line table of `t`.
* `LineTable.placeOf`, `LineTable.offsetOf` — the conversions.
-/

namespace ComponentLint

/-- A line ends after a line feed, and after a carriage return that no line feed follows. -/
def endsLine (c : Char) (next? : Option Char) : Bool :=
  c == '\n' || (c == '\r' && next? != some '\n')

/-- The offsets at which a line starts after a break, for a text that starts at offset `start`. -/
def lineStartsFrom (start : Nat) : Text → List Nat
  | [] => []
  | c :: t =>
    let next := start + c.utf8Size
    if endsLine c t.head? then next :: lineStartsFrom next t else lineStartsFrom next t

/-- Where the lines of a text start. -/
structure LineTable where
  /-- The offset at which each line starts, in order.  The first line starts at offset 0. -/
  starts : List Nat
  /-- The number of bytes of the text. -/
  size : Nat
  deriving DecidableEq, Repr

namespace LineTable

/-- The line table of a text. -/
def ofText (t : Text) : LineTable where
  starts := 0 :: lineStartsFrom 0 t
  size := Text.size t

/-- The number of lines. -/
def count (table : LineTable) : Nat := table.starts.length

/-- The offset at which a line starts, lines counted from zero. -/
def startOf? (table : LineTable) (line : Nat) : Option Nat := table.starts[line]?

/-- The place of a byte offset.  An offset past the end is taken for the end. -/
def placeOf (table : LineTable) (offset : Nat) : Place :=
  let offset := min offset table.size
  let before := table.starts.takeWhile (· ≤ offset)
  ⟨before.length - 1, offset - before.getLastD 0⟩

/-- The byte offset of a place.  A line past the end is taken for the end of the text, and a
column past the end of its line for the start of the next line. -/
def offsetOf (table : LineTable) (place : Place) : Nat :=
  match table.startOf? place.line with
  | none => table.size
  | some start => min (start + place.column) ((table.startOf? (place.line + 1)).getD table.size)

/-- The byte offset of a location.  Line 0 is taken for the start of the text. -/
def offsetOfLocation (table : LineTable) (location : Location) : Nat :=
  match location.toPlace? with
  | none => 0
  | some place => table.offsetOf place

end LineTable

end ComponentLint
