/-!
# Places, locations and positions

Three ways to name a point of a text by line and column.  Columns count bytes in all of them;
they differ in where counting starts.  Lines and columns have no bound here; for a text of less than
`2 ^ 32 - 1` bytes they are numbers of 32 bits.

## Main definitions

* `Place` — line and column from zero: how a text is indexed.
* `Location` — line from one, column from zero: what the compiler and the transpiler report.
* `Position` — line and column from one: what the linter reports.
-/

namespace ComponentLint

/-- A point of a text, with line and column counted from zero. -/
structure Place where
  line : Nat
  column : Nat
  deriving DecidableEq, Repr

/-- A point as the compiler reports it: the first line is line 1, the first column column 0. -/
structure Location where
  line : Nat
  column : Nat
  deriving DecidableEq, Repr

/-- A point as the linter reports it: the first line is line 1, the first column column 1. -/
structure Position where
  line : Nat
  column : Nat
  deriving DecidableEq, Repr

/-- The linter's name for a place. -/
def Place.toPosition (p : Place) : Position := ⟨p.line + 1, p.column + 1⟩

/-- The compiler's name for a place. -/
def Place.toLocation (p : Place) : Location := ⟨p.line + 1, p.column⟩

/-- The place a location names.  The compiler may report line 0, which names no place. -/
def Location.toPlace? (l : Location) : Option Place :=
  match l.line with
  | 0 => none
  | line + 1 => some ⟨line, l.column⟩

/-- The compiler's name for a position. -/
def Position.toLocation (p : Position) : Location := ⟨p.line, p.column - 1⟩

end ComponentLint
