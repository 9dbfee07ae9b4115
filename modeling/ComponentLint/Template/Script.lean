import ComponentLint.Block.Piece
import ComponentLint.Template.Binding

/-!
# The template as a script

Every expression of the template becomes a statement between parentheses.  A node that declares
names opens a scope for them, which is closed after everything below the node.  Below a node come
its attributes, the nodes of its value, its children, and its branches.

An expression is marked as quoted while a quoted attribute is being written.  The mark is set when
an attribute starts whose text ends with a quote, and taken away when an attribute ends.

## Main definitions

* `Node.pieces d node` — the pieces of a template tree in the document `d`.
-/

namespace ComponentLint

/-- The text that opens a scope with names. -/
def openScope (names : List String) : Text :=
  ("\x7blet " ++ ",".intercalate (names.map (· ++ "=0")) ++ ";").toList

/-- Whether the byte before an offset is a quote. -/
def quoteBefore (document : Text) (offset : Nat) : Bool :=
  match offset with
  | 0 => false
  | last + 1 =>
    match Text.cut? document last with
    | some (_, c :: _) => c == '\x22' || c == '\x27'
    | _ => false

/-- Pieces, and whether the mark of a quoted attribute is set after them. -/
abbrev Marked := List Piece × Bool

mutual

/-- The pieces of a node below a parent, when the mark of a quoted attribute is set or not. -/
def nodePieces (document : Text) (parent : Option Node) (isAttribute quoted : Bool) :
    Node → Marked
  | n@⟨_, _, stop, _, expression, _, _, value, _, attributes, children, pending, thenBranch,
      catchBranch, elseBranch⟩ =>
    let quoted := quoted || (isAttribute && quoteBefore document stop)
    let names := n.declaredNames parent
    let opening := if names.isEmpty then [] else [Piece.scaffold (openScope names)]
    let statement :=
      match expression with
      | none => []
      | some e => [.scaffold ['('], .fragment e.span ⟨true, quoted⟩, .scaffold [')', ';']]
    let ofAttributes := listPieces document n true quoted attributes
    let ofValue := valuePieces document n ofAttributes.2 value
    let ofChildren := listPieces document n false ofValue.2 children
    let ofPending := branchPieces document n ofChildren.2 pending
    let ofThen := branchPieces document n ofPending.2 thenBranch
    let ofCatch := branchPieces document n ofThen.2 catchBranch
    let ofElse := branchPieces document n ofCatch.2 elseBranch
    let closing := if names.isEmpty then [] else [Piece.scaffold ['\x7d']]
    (opening ++ statement ++ ofAttributes.1 ++ ofValue.1 ++ ofChildren.1 ++ ofPending.1
        ++ ofThen.1 ++ ofCatch.1 ++ ofElse.1 ++ closing,
      ofElse.2 && !isAttribute)
termination_by structural n => n

/-- The pieces of several nodes below a parent, one after the other. -/
def listPieces (document : Text) (parent : Node) (isAttribute quoted : Bool) :
    List Node → Marked
  | [] => ([], quoted)
  | n :: rest =>
    let first := nodePieces document (some parent) isAttribute quoted n
    let others := listPieces document parent isAttribute first.2 rest
    (first.1 ++ others.1, others.2)
termination_by structural nodes => nodes

/-- The pieces of the nodes in the value of a node. -/
def valuePieces (document : Text) (parent : Node) (quoted : Bool) : Option NodeValue → Marked
  | some (.nodes nodes) => listPieces document parent false quoted nodes
  | _ => ([], quoted)
termination_by structural value => value

/-- The pieces of a branch of a node. -/
def branchPieces (document : Text) (parent : Node) (quoted : Bool) : Option Node → Marked
  | some n => nodePieces document (some parent) false quoted n
  | none => ([], quoted)
termination_by structural branch => branch

end

/-- The pieces of a template tree. -/
def Node.pieces (document : Text) (root : Node) : List Piece :=
  (nodePieces document none false false root).1

end ComponentLint
