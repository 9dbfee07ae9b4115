import ComponentLint.LineTable
import ComponentLint.Message
import ComponentLint.Outdent
import ComponentLint.Span

/-!
# Blocks

The text handed to the linter for one part of a component.  It is put together from fragments of
the document, without their margin, and from scaffolding.  Every fragment stands on lines of its
own; the block remembers where each fragment comes from and which of its lines it covers.

## Main definitions

* `Flags` — what is special about a fragment.
* `Placement` — how a fragment was placed into a block.
* `Block` — the text and its placements.
* `Block.append b t` — the block with scaffolding added.
* `Block.place? b d span flags` — the block with a fragment of the document `d` added.
* `Block.placementAt? b line` — the placement that covers a line.
* `Block.referenced? b m` — the text a message points at.
-/

namespace ComponentLint

/-- What is special about a fragment. -/
structure Flags where
  /-- The fragment is an expression of the template. -/
  template : Bool := false
  /-- The fragment is part of a quoted attribute value. -/
  quoted : Bool := false
  deriving DecidableEq, Repr

/-- How a fragment was placed into a block. -/
structure Placement where
  /-- The fragment's range in the document. -/
  range : Span
  /-- The document text before the fragment. -/
  documentLead : Extent
  /-- The block text before the fragment. -/
  blockLead : Extent
  /-- What was removed from the lines of the fragment. -/
  removal : Removal
  /-- The margin that was removed. -/
  margin : Text
  /-- The last block line of the fragment, from one. -/
  lastLine : Nat
  flags : Flags
  deriving DecidableEq, Repr

/-- The first block line of the fragment, from one. -/
def Placement.firstLine (p : Placement) : Nat := p.blockLead.lines

/-- Whether a block line, from one, belongs to the fragment. -/
def Placement.covers (p : Placement) (line : Nat) : Bool :=
  p.firstLine ≤ line && line ≤ p.lastLine

/-- A text for the linter. -/
structure Block where
  /-- The text. -/
  code : Text
  /-- The placements of the fragments, in the order in which they were placed. -/
  placements : List Placement
  deriving DecidableEq, Repr

namespace Block

/-- The block without text. -/
def empty : Block := ⟨[], []⟩

/-- The number of lines ended by a line feed, and the last one. -/
def height (b : Block) : Nat := (Extent.of b.code).lines

/-- Adds scaffolding: text that does not come from the document. -/
def append (b : Block) (t : Text) : Block := { b with code := b.code ++ t }

/-- Adds a fragment of the document, without its margin and on lines of its own.  A range that
the document does not have adds nothing. -/
def place? (b : Block) (document : Text) (range : Span) (flags : Flags) : Option Block := do
  let (lead, _) ← Text.cut? document range.start
  let fragment ← range.slice? document
  let opened := b.code ++ ['\n']
  let outdented := outdent fragment
  let closed := opened ++ outdented.text
  let placement : Placement := {
    range := range
    documentLead := Extent.of lead
    blockLead := Extent.of opened
    removal := outdented.removal
    margin := outdented.margin
    lastLine := (Extent.of closed).lines
    flags := flags }
  return ⟨closed ++ ['\n'], b.placements ++ [placement]⟩

/-- The index of the placement that covers a line, from one: the latest that does. -/
def placementIndex? (b : Block) (line : Nat) : Option Nat :=
  (b.placements.reverse.findIdx? (·.covers line)).map fun i => b.placements.length - 1 - i

/-- The placement that covers a line, from one: the latest that does. -/
def placementAt? (b : Block) (line : Nat) : Option Placement :=
  b.placements.reverse.find? (·.covers line)

/-- The text a message points at, if the message says where it starts and ends. -/
def referenced? (b : Block) (m : Message) : Option Text := do
  let endLine ← m.endLine
  let endColumn ← m.endColumn
  if m.line = 0 ∨ m.column = 0 ∨ endLine = 0 ∨ endColumn = 0 then none
  else
    let table := LineTable.ofText b.code
    let start := table.offsetOf ⟨m.line - 1, m.column - 1⟩
    let stop := table.offsetOf ⟨endLine - 1, endColumn - 1⟩
    Text.slice? b.code start stop

end Block

end ComponentLint
