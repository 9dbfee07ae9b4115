import ComponentLint.Json.Decoder
import ComponentLint.Template.Node

/-!
# Template nodes in JSON

The compiler writes a node as an object with its `type`, `start` and `end`; members that are
missing or empty are left out.  The `value` of a node may be an array of nodes or any other value:
an array that holds anything else than nodes is a value like any other.

## Main definitions

* `Expression.encode`, `Expression.decode` — expressions.
* `Node.encode`, `Node.decode` — nodes.
-/

namespace ComponentLint

open Json

/-- The word for a kind of node. -/
def NodeKind.word : NodeKind → String
  | .fragment => "Fragment"
  | .element => "Element"
  | .inlineComponent => "InlineComponent"
  | .slotTemplate => "SlotTemplate"
  | .eachBlock => "EachBlock"
  | .awaitBlock => "AwaitBlock"
  | .thenBlock => "ThenBlock"
  | .catchBlock => "CatchBlock"
  | .constTag => "ConstTag"
  | .letDirective => "Let"
  | .attribute => "Attribute"
  | .mustacheTag => "MustacheTag"
  | .other => "Other"

/-- The kinds that have a word of their own. -/
def NodeKind.named : List NodeKind :=
  [.fragment, .element, .inlineComponent, .slotTemplate, .eachBlock, .awaitBlock, .thenBlock,
    .catchBlock, .constTag, .letDirective, .attribute, .mustacheTag]

/-- The kind a word stands for. -/
def NodeKind.ofWord (w : String) : NodeKind := (named.find? (·.word == w)).getD .other

namespace Expression

/-- Writes an expression: its range, then its syntax node. -/
def encode (e : Expression) : Json :=
  .object ([("start", .ofNat e.start), ("end", .ofNat e.stop)] ++ e.syntaxNode)

/-- Reads an expression.  Every member besides the range belongs to the syntax node. -/
def decode : Decoder Expression
  | n, .object members => do
    let r ← Decoder.memberRow [⟨"start", none⟩, ⟨"end", none⟩] n (.object members)
    let others := members.filter fun member => member.1 != "start" && member.1 != "end"
    return {
      start := ← r.required "start" Decoder.word
      stop := ← r.required "end" Decoder.word
      syntaxNode := Entries.ofList (← Json.memberValues? r.inner others) }
  | _, _ => none

end Expression

/-! ### Writing nodes -/

/-- A member for a list that is left out when the list is empty. -/
def memberIfAny (name : String) (items : List Json) : List (String × Json) :=
  if items.isEmpty then [] else [(name, .array items)]

mutual

/-- Writes a node. -/
def Node.encode : Node → Json
  | ⟨kind, start, stop, name, expression, context, index, value, error, attributes, children,
      pending, thenBranch, catchBranch, elseBranch⟩ =>
    .object <|
      [("type", .string kind.word), ("start", .ofNat start), ("end", .ofNat stop)]
      ++ memberIfSome "name" Json.string name
      ++ memberIfSome "expression" Expression.encode expression
      ++ memberIfSome "context" id context
      ++ memberIfSome "index" id index
      ++ encodeValue value
      ++ memberIfSome "error" id error
      ++ memberIfAny "attributes" (encodeNodes attributes)
      ++ memberIfAny "children" (encodeNodes children)
      ++ encodeBranch "pending" pending
      ++ encodeBranch "then" thenBranch
      ++ encodeBranch "catch" catchBranch
      ++ encodeBranch "else" elseBranch

/-- Writes nodes one by one. -/
def encodeNodes : List Node → List Json
  | [] => []
  | n :: rest => n.encode :: encodeNodes rest

/-- The member for the value of a node. -/
def encodeValue : Option NodeValue → List (String × Json)
  | none => []
  | some (.nodes nodes) => [("value", .array (encodeNodes nodes))]
  | some (.pattern pattern) => [("value", pattern)]

/-- The member for a branch of a node. -/
def encodeBranch (name : String) : Option Node → List (String × Json)
  | none => []
  | some n => [(name, n.encode)]

end

/-! ### Reading nodes -/

namespace Node

/-- The fields of a node, in their order. -/
def fields : List Field :=
  [⟨"type", none⟩, ⟨"start", none⟩, ⟨"end", none⟩, ⟨"name", none⟩, ⟨"expression", none⟩,
    ⟨"context", none⟩, ⟨"index", none⟩, ⟨"value", none⟩, ⟨"error", none⟩, ⟨"attributes", none⟩,
    ⟨"children", none⟩, ⟨"pending", none⟩, ⟨"then", none⟩, ⟨"catch", none⟩, ⟨"else", none⟩]

/-- Reads a node of at most the given depth. -/
def decodeWithin : (depth : Nat) → Decoder Node
  | 0, _, _ => none
  | depth + 1, n, j => do
    let r ← Decoder.row fields n j
    let node := decodeWithin depth
    let listedNodes := Decoder.map NodeValue.nodes (Decoder.list node)
    let value := Decoder.captured
      (Decoder.orElse listedNodes (Decoder.map NodeValue.pattern Decoder.value))
    return {
      kind := ← r.required "type" (Decoder.choice (some ∘ NodeKind.ofWord))
      start := ← r.required "start" Decoder.word
      stop := ← r.required "end" Decoder.word
      name := ← r.optional "name" Decoder.string
      expression := ← r.optional "expression" Expression.decode
      context := ← r.optional "context" Decoder.value
      index := ← r.optional "index" Decoder.value
      value := ← r.optional "value" value
      error := ← r.optional "error" Decoder.value
      attributes := ← r.orElse "attributes" [] (Decoder.list node)
      children := ← r.orElse "children" [] (Decoder.list node)
      pending := ← r.optional "pending" node
      thenBranch := ← r.optional "then" node
      catchBranch := ← r.optional "catch" node
      elseBranch := ← r.optional "else" node }

/-- Reads a node. -/
def decode : Decoder Node := fun n j => decodeWithin j.depth n j

end Node

end ComponentLint
