import ComponentLint.Json.Basic
import ComponentLint.Span

/-!
# Template nodes

The part of the compiler's template tree that is read here: where expressions stand, and which
nodes bind names.

## Main definitions

* `NodeKind` — the kinds of nodes that are told apart.
* `Expression` — a script expression in the template.
* `Node`, `NodeValue` — a node of the tree, and what its `value` holds.
-/

namespace ComponentLint

/-- The kinds of nodes that are told apart. -/
inductive NodeKind where
  | fragment
  | element
  | inlineComponent
  | slotTemplate
  | eachBlock
  | awaitBlock
  | thenBlock
  | catchBlock
  | constTag
  | letDirective
  | attribute
  | mustacheTag
  /-- Any other kind. -/
  | other
  deriving DecidableEq, Repr

/-- A script expression in the template. -/
structure Expression where
  start : Nat
  stop : Nat
  /-- The syntax node of the expression, without its range. -/
  syntaxNode : Entries Json

namespace Expression

/-- The range of the expression in the document. -/
def span (e : Expression) : Span := ⟨e.start, e.stop⟩

/-- The left-hand side of an assignment. -/
def left? (e : Expression) : Option Json := e.syntaxNode.get? "left"

end Expression

mutual

/-- A node of the template tree. -/
structure Node where
  kind : NodeKind
  start : Nat
  stop : Nat
  /-- The name of an element, attribute or directive. -/
  name : Option String := none
  /-- The expression that belongs to the node. -/
  expression : Option Expression := none
  /-- What the items of an `each` block are bound to. -/
  context : Option Json := none
  /-- What the index of an `each` block is bound to. -/
  index : Option Json := none
  /-- The value of an attribute, or what an awaited value is bound to. -/
  value : Option NodeValue := none
  /-- What the error of an `await` block is bound to. -/
  error : Option Json := none
  attributes : List Node := []
  children : List Node := []
  /-- The branch of an `await` block that waits. -/
  pending : Option Node := none
  thenBranch : Option Node := none
  catchBranch : Option Node := none
  elseBranch : Option Node := none

/-- What the `value` of a node holds. -/
inductive NodeValue where
  /-- The nodes of an attribute value. -/
  | nodes (nodes : List Node)
  /-- Anything else, such as the pattern an awaited value is bound to. -/
  | pattern (pattern : Json)

end

namespace Node

/-- The nodes in an attribute value. -/
def listedNodes (n : Node) : List Node :=
  match n.value with
  | some (.nodes nodes) => nodes
  | _ => []

/-- The pattern an awaited value is bound to. -/
def pattern? (n : Node) : Option Json :=
  match n.value with
  | some (.pattern pattern) => some pattern
  | _ => none

end Node

end ComponentLint
