import ComponentLint.Lint.Consultation
import ComponentLint.Markup.Blank

/-!
# Transpiling the scripts of a document

The body of every `script` element is transpiled on its own, and the outputs are spliced into the
document.

## Main definitions

* `Rejection.relocate` — a rejection of a script body, moved to the document.
* `spliceStretches` — transpiles the bodies of a list of stretches.
* `spliceScripts transpile t` — the document `t` with transpiled scripts.
* `Spliced.relocate` — a rejection of the spliced document, moved to the document as written.
-/

namespace ComponentLint

open Markup

/-- A location in a script body that starts at byte `start` of a document, moved to the
document. -/
def Location.relocate (document body : Text) (start : Nat) (l : Location) : Location :=
  ((LineTable.ofText document).placeOf
    (start + (LineTable.ofText body).offsetOfLocation l)).toLocation

/-- A rejection of a script body that starts at byte `start` of a document, moved to the
document. -/
def Rejection.relocate (document body : Text) (start : Nat) (r : Rejection) : Rejection :=
  { r with
    start := r.start.map (Location.relocate document body start)
    stop := r.stop.map (Location.relocate document body start) }

/-- A rejection of the spliced document, moved to the document as written. -/
def Spliced.relocate (d : Spliced) (r : Rejection) : Except MappingError Rejection := do
  return { r with
    start := ← r.start.mapM d.sourceLocation
    stop := ← r.stop.mapM d.sourceLocation }

/-- Transpiles a script body. -/
def transpileBody (transpile : Text → Except Rejection Transpiled) (document body : Text)
    (start : Nat) : Consultation Halt Transpiled :=
  .ask (.transpile body) <|
    (transpile body).mapError fun r => .rejected (r.relocate document body start)

/-- The splice for a transpiled body. -/
def spliceBody (start generatedStart : Nat) (body : Text) (t : Transpiled) :
    Consultation Halt Splice :=
  .ofResult <|
    (Splice.ofSourceMap start generatedStart body t.output t.sourceMap).mapError
      fun e => .failed (.sourceMap e)

/-- Transpiles the script bodies in the stretches of a document, from byte `start` on, which is
byte `generatedStart` of the generated text.  The result is the generated text of the stretches
and their splices. -/
def spliceStretches (transpile : Text → Except Rejection Transpiled) (document : Text)
    (start generatedStart : Nat) : List Stretch → Consultation Halt (Text × List Splice)
  | [] => pure ([], [])
  | .plain c :: rest => do
    let (text, splices) ←
      spliceStretches transpile document (start + c.utf8Size) (generatedStart + c.utf8Size) rest
    return (c :: text, splices)
  | .element e :: rest => do
    let bodyStart := start + Text.size e.opening
    let outputStart := generatedStart + Text.size e.opening
    let output ← transpileBody transpile document e.body bodyStart
    let splice ← spliceBody bodyStart outputStart e.body output
    let (text, splices) ←
      spliceStretches transpile document (bodyStart + Text.size (e.body ++ e.closing))
        (outputStart + Text.size (output.output ++ e.closing)) rest
    return (e.opening ++ output.output ++ e.closing ++ text, splice :: splices)

/-- Transpiles every script body of a document. -/
def spliceScripts (transpile : Text → Except Rejection Transpiled) (document : Text) :
    Consultation Halt Spliced := do
  let (generated, splices) ←
    spliceStretches transpile document 0 0 (scan scriptName document)
  return ⟨document, generated, splices⟩

end ComponentLint
