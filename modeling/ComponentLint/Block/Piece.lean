import ComponentLint.Block.Basic

/-!
# Pieces of a block

A block is described by the list of its pieces and then written.  Writing stops at the first piece
whose range the document does not have; what was written before it stays.

## Main definitions

* `Piece` — scaffolding, a verbatim copy, or a fragment.
* `Block.add? b d piece` — the block with a piece added.
* `Block.write b d pieces` — the block with pieces added, and the range that could not be.
-/

namespace ComponentLint

/-- A piece of a block. -/
inductive Piece where
  /-- Text that does not come from the document. -/
  | scaffold (text : Text)
  /-- A part of the document, copied as it is and without a placement. -/
  | copy (range : Span)
  /-- A part of the document to be linted. -/
  | fragment (range : Span) (flags : Flags)
  deriving DecidableEq, Repr

namespace Block

/-- Adds a piece, or names the range that the document does not have. -/
def add? (b : Block) (document : Text) : Piece → Except Span Block
  | .scaffold text => .ok (b.append text)
  | .copy range =>
    match range.slice? document with
    | some text => .ok (b.append text)
    | none => .error range
  | .fragment range flags =>
    match b.place? document range flags with
    | some b => .ok b
    | none => .error range

/-- Adds pieces until one has a range that the document does not have. -/
def write (b : Block) (document : Text) : List Piece → Block × Option Span
  | [] => (b, none)
  | piece :: rest =>
    match b.add? document piece with
    | .ok b => b.write document rest
    | .error range => (b, some range)

/-- The block made of pieces, if the document has all their ranges. -/
def ofPieces (document : Text) (pieces : List Piece) : Except Span Block :=
  match empty.write document pieces with
  | (b, none) => .ok b
  | (_, some range) => .error range

end Block

end ComponentLint
