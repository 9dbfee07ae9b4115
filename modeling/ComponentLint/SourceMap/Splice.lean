import ComponentLint.Json.Parser
import ComponentLint.LineTable
import ComponentLint.SourceMap.Mappings

/-!
# Spliced documents

A document whose script bodies were replaced by generated ones.  Each replacement is a splice; its
mappings lead from the generated body back to the source one.  Outside the splices only the
changes in length have to be undone.

## Main definitions

* `Splice` — one replaced body.
* `SourceMapError` — why a source map cannot be used.
* `Splice.ofSourceMap` — a splice whose mappings are taken from the text of a source map.
* `Spliced` — a document with its splices.
* `Spliced.sourceOffset`, `Spliced.sourcePosition` — from the generated document back to the
  source one.
-/

namespace ComponentLint

/-- Why a source map cannot be used. -/
inductive SourceMapError where
  /-- The source map is not a JSON document. -/
  | invalidJson
  /-- The source map has no text under `mappings`. -/
  | missingMappings
  /-- The mappings are malformed. -/
  | mappings (e : MappingError)
  deriving DecidableEq, Repr

/-- The wording of a source map error. -/
def SourceMapError.message : SourceMapError → String
  | .invalidJson => "invalid source map"
  | .missingMappings => "source map has no mappings"
  | .mappings e => "invalid source map mappings: " ++ e.message

/-- One replaced body. -/
structure Splice where
  /-- Where the body starts in the source document. -/
  sourceStart : Nat
  /-- Where its replacement starts in the generated document. -/
  generatedStart : Nat
  /-- The source body. -/
  source : Text
  /-- The generated body. -/
  generated : Text
  /-- The mappings from the generated to the source body, as they were written. -/
  mappings : Text
  deriving DecidableEq, Repr

namespace Splice

/-- Where the generated body ends in the generated document. -/
def generatedStop (s : Splice) : Nat := s.generatedStart + Text.size s.generated

/-- How much longer the generated body is than the source one. -/
def growth (s : Splice) : Int := (Text.size s.generated : Int) - Text.size s.source

/-- Whether an offset of the generated document lies in the generated body, both ends included. -/
def contains (s : Splice) (offset : Nat) : Bool :=
  s.generatedStart ≤ offset && offset ≤ s.generatedStop

/-- The offset in the source body from which a place of the generated body comes.  It is the
start of the body when the mappings do not say, or say a line before the first. -/
def bodyOffset (s : Splice) (origin : Option Origin) : Nat :=
  match origin with
  | none => 0
  | some o =>
    if o.line < 0 then 0
    else (LineTable.ofText s.source).offsetOf ⟨o.line.toInt.toNat, o.column.toInt.toNat⟩

/-- The offset of the source document for an offset that lies in the generated body. -/
def sourceOffset (s : Splice) (offset : Nat) : Except MappingError Nat := do
  let place := (LineTable.ofText s.generated).placeOf (offset - s.generatedStart)
  let mappings ← Mappings.decode s.mappings
  return s.sourceStart + s.bodyOffset (mappings.originAt place)

/-- A splice whose mappings are taken from the text of a source map. -/
def ofSourceMap (sourceStart generatedStart : Nat) (source generated sourceMap : Text) :
    Except SourceMapError Splice :=
  match (Json.parse? sourceMap).bind (Json.value? Nesting.ofDocument) with
  | none => .error .invalidJson
  | some j =>
    match j.member? "mappings" with
    | some (.string mappings) =>
      .ok ⟨sourceStart, generatedStart, source, generated, mappings.toList⟩
    | _ => .error .missingMappings

end Splice

/-- A document whose script bodies were replaced. -/
structure Spliced where
  /-- The source document. -/
  source : Text
  /-- The document with the generated bodies. -/
  generated : Text
  /-- The replaced bodies, in order and apart from each other. -/
  splices : List Splice
  deriving DecidableEq, Repr

namespace Spliced

/-- Follows an offset of the generated document past the splices.  In a splice its mappings
decide; the growth of every splice that ends before the offset is taken back from `shifted`. -/
def followPast (offset : Nat) : List Splice → Int → Except MappingError Nat
  | [], shifted => .ok shifted.toNat
  | s :: rest, shifted =>
    if s.contains offset then s.sourceOffset offset
    else followPast offset rest (if s.generatedStop < offset then shifted - s.growth else shifted)

/-- The offset of the source document for an offset of the generated one. -/
def sourceOffset (d : Spliced) (offset : Nat) : Except MappingError Nat :=
  followPast offset d.splices offset

/-- The position in the source document of a location in the generated one. -/
def sourcePosition (d : Spliced) (location : Location) : Except MappingError Position := do
  let offset := (LineTable.ofText d.generated).offsetOfLocation location
  let sourceOffset ← d.sourceOffset offset
  return ((LineTable.ofText d.source).placeOf sourceOffset).toPosition

/-- The location in the source document of a location in the generated one. -/
def sourceLocation (d : Spliced) (location : Location) : Except MappingError Location :=
  Position.toLocation <$> d.sourcePosition location

end Spliced

end ComponentLint
