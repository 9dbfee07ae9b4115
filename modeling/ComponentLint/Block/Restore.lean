import ComponentLint.Block.Basic

/-!
# From the block back to the document

A message that the linter reports on a block is moved to the document: the block text before the
fragment is taken off, what was removed from the lines is put back, and the document text before
the fragment is added.  A fix is first narrowed to what it changes, then moved in the same way,
and cut to the fragment.

## Main definitions

* `clampToWord` — an integer as a number of 32 bits.
* `Fix.narrow code fix` — the part of a fix that changes the text.
* `Placement.restoreLine`, `Placement.restoreColumn`, `Placement.restoreOffset` — a line, a
  column and an offset of the block, moved to the document.
* `Placement.restoreFix`, `Placement.restore` — a fix and a message, moved to the document.
-/

namespace ComponentLint

/-- The nearest number of 32 bits. -/
def clampToWord (i : Int) : Nat := min i.toNat 0xffffffff

/-- How many bytes two texts share at the front, and what is left of the second one.  No
character is taken once `room` bytes are shared. -/
def sharedFront (room : Nat) : Text → Text → Nat × Text
  | a :: s, b :: t =>
    if 0 < room ∧ a = b then
      let shared := sharedFront (room - a.utf8Size) s t
      (a.utf8Size + shared.1, shared.2)
    else (0, b :: t)
  | _, t => (0, t)

/-- Narrows a fix to the part that changes the text: what the replacement shares with the replaced
text at the front, and then at the back, is left alone.  Where the range does not meet a character
boundary, nothing is shared. -/
def Fix.narrow (code : Text) (f : Fix) : Fix :=
  let ahead := (Text.cut? code f.start).elim [] Prod.snd
  let front := sharedFront (f.stop - f.start) ahead f.text
  let start := f.start + front.1
  let behind := (Text.cut? code f.stop).elim [] Prod.fst
  let back := sharedFront (f.stop - start) behind.reverse front.2.reverse
  ⟨start, max (f.stop - back.1) start, back.2.reverse⟩

/-- Indents the lines that a replacement begins. -/
def indentLines (margin t : Text) : Text :=
  t.flatMap fun c => if c = '\n' then '\n' :: margin else [c]

namespace Placement

/-- A line of the block, counted from one inside the fragment. -/
def fragmentLine (p : Placement) (line : Nat) : Int := line - p.blockLead.lines + 1

/-- What was removed from a line of the fragment, lines counted from one. -/
def removedFrom (p : Placement) (fragmentLine : Int) : Nat :=
  if fragmentLine < 1 then 0 else p.removal.onLine (fragmentLine - 1).toNat

/-- A line of the block, moved to the document. -/
def restoreLine (p : Placement) (line : Nat) : Int :=
  p.fragmentLine line + p.documentLead.lines - 1

/-- A column on a line of the block, moved to the document. -/
def restoreColumn (p : Placement) (line column : Nat) : Int :=
  let inside := p.fragmentLine line
  column - (if inside = 1 then p.blockLead.last else 0) + p.removedFrom inside
    + (if inside = 1 then p.documentLead.last else 0)

/-- An offset on a line of the block, lines counted from zero, moved to the document. -/
def restoreOffset (p : Placement) (line offset : Nat) : Int :=
  offset - p.blockLead.length + p.removal.beforeLine (line - (p.blockLead.lines - 2))
    + p.documentLead.length

/-- Keeps an edit inside the fragment: text is dropped on the side that sticks out. -/
def clampFix (p : Placement) (start stop : Int) (text : Text) : Fix :=
  let low : Int := p.range.start
  let high : Int := p.range.stop
  let text := if start < low then Text.shortenStart text (low - start).toNat else text
  let text := if high < stop then Text.shortenEnd text (stop - high).toNat else text
  ⟨clampToWord (max start low), clampToWord (min stop high), text⟩

/-- A fix on the block, moved to the document. -/
def restoreFix (p : Placement) (code : Text) (f : Fix) : Fix :=
  let narrowed := f.narrow code
  let table := LineTable.ofText code
  let move (offset : Nat) : Int := p.restoreOffset (table.placeOf offset).line offset
  p.clampFix (move narrowed.start) (move narrowed.stop) (indentLines p.margin narrowed.text)

/-- A message on the block, moved to the document. -/
def restore (p : Placement) (b : Block) (m : Message) : Message :=
  { m with
    line := clampToWord (p.restoreLine m.line)
    column := clampToWord (p.restoreColumn m.line m.column)
    endLine := m.endLine.map fun line => clampToWord (p.restoreLine line)
    endColumn := m.endColumn.map fun column =>
      match m.endLine with
      | none => column
      | some line => clampToWord (p.restoreColumn line column)
    fix := m.fix.map (p.restoreFix b.code) }

end Placement

end ComponentLint
