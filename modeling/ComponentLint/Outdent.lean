import ComponentLint.Text.Lines

/-!
# Outdenting

A script body is handed to the linter without the margin of its first line, as far as its lines
share it.  What was taken from each line is kept in a table, so that columns and offsets can be
put back.

## Main definitions

* `Text.margin t` — the blanks before the first visible character of `t`, on its line.
* `Removal` — how many bytes were removed from each line.
* `outdent t` — `t` without its margin.
-/

namespace ComponentLint

namespace Text

/-- Spaces and tabs. -/
def isBlank (c : Char) : Bool := c == ' ' || c == '\t'

/-- Line feeds and carriage returns. -/
def isBreak (c : Char) : Bool := c == '\n' || c == '\r'

/-- The blanks before the first visible character, on its line.  In a text of blanks only, those
of the last line. -/
def margin (t : Text) : Text :=
  let leading := t.takeWhile fun c => isBlank c || isBreak c
  (leading.reverse.takeWhile isBlank).reverse

end Text

/-- How much was removed from the lines of a fragment, in bytes.  There is no bound on the numbers;
those of a fragment of less than `2 ^ 32` bytes have 32 bits. -/
structure Removal where
  /-- What was removed from each line. -/
  perLine : List Nat
  /-- What was removed before each line, and at last from all lines. -/
  before : List Nat
  deriving DecidableEq, Repr

namespace Removal

/-- The running sums of a list, from `sum` on. -/
def sums (sum : Nat) : List Nat → List Nat
  | [] => [sum]
  | n :: rest => sum :: sums (sum + n) rest

/-- The table of what was removed from each line. -/
def ofLines (perLine : List Nat) : Removal := ⟨perLine, sums 0 perLine⟩

/-- What was removed from a line, lines counted from zero. -/
def onLine (r : Removal) (line : Nat) : Nat := r.perLine.getD line 0

/-- What was removed before a line, lines counted from zero.  A line outside the table is taken
for the nearest one inside. -/
def beforeLine (r : Removal) (line : Int) : Nat :=
  r.before.getD (min line.toNat (r.before.length - 1)) 0

end Removal

/-- A text without its margin. -/
structure Outdented where
  /-- The text that is left. -/
  text : Text
  /-- What was removed from each line. -/
  removal : Removal
  /-- The margin. -/
  margin : Text
  deriving DecidableEq, Repr

/-- A line without the margin, and how much was removed.  A line that does not start with the
margin stays as it is. -/
def outdentLine (margin line : Text) : Nat × Text :=
  match margin.isPrefixOf? line with
  | some rest => (Text.size margin, rest)
  | none => (0, line)

/-- Removes the margin of a text from every line that starts with it. -/
def outdent (t : Text) : Outdented :=
  let margin := Text.margin t
  let lines := (Text.lines t).map (outdentLine margin)
  ⟨lines.flatMap Prod.snd, Removal.ofLines (lines.map Prod.fst), margin⟩

end ComponentLint
