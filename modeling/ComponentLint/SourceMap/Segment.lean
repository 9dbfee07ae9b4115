/-!
# Segments of a source map

A source map relates columns of a generated text to places of a source text, segment by
segment.  Numbers in it are 32-bit words that wrap around.

## Main definitions

* `Origin` — the source side of a segment.
* `Segment` — a column of a generated line and, mostly, where it comes from.
* `Segment.fields` — the one, four or five numbers of a segment, in the order of the wire format.
* `Mappings` — the segments of each generated line.
-/

namespace ComponentLint

/-- Where a generated column comes from. -/
structure Origin where
  /-- Index of the source file. -/
  source : Int32
  /-- Line in the source, from zero. -/
  line : Int32
  /-- Column in the source, from zero. -/
  column : Int32
  /-- Index of the name, if the segment has one. -/
  name : Option Int32
  deriving DecidableEq, Repr

/-- One segment of a generated line. -/
structure Segment where
  /-- Column in the generated line, from zero. -/
  column : Int32
  /-- Where the column comes from; a segment of a single field does not say. -/
  origin : Option Origin
  deriving DecidableEq, Repr

/-- The fields of a segment in the order of the wire format. -/
def Segment.fields (s : Segment) : List Int32 :=
  match s.origin with
  | none => [s.column]
  | some o => [s.column, o.source, o.line, o.column] ++ o.name.toList

/-- The segments of every generated line, in order. -/
abbrev Mappings := List (List Segment)

end ComponentLint
