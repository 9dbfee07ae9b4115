import ComponentLint.Proofs.Block.Outline
import ComponentLint.Proofs.Template.Tree

/-!
# The walk through a template

Writing the template visits each node once: first the node, then what is right below it, in a fixed
order.  A visit is described by the path from the root to the node.  The path says what is open
around the expression of the node: one scope for each node of the path that declares names, and a
parenthesis.

The pieces of a node are therefore balanced, whatever is open around them, by induction on the tree:
the scope of a node is closed behind all that is below it.

## Main definitions

* `scopesOn parent path` — the names declared by the nodes of a path.
* `visitOf path` — what the script tells of the node at the end of a path.
* `entryPieces document parent quoted entries` — the pieces of the nodes right below a node.

## Main statements

* `nodePieces_eq` — the pieces of a node, with the nodes below it in one list, and the mark of a
  quoted attribute after them.
* `balanced_nodePieces` — **the pieces of a node are balanced**, and visit the paths from it.
* `Node.write_pieces_visits` — **the template is written expression by expression, each in its
  scopes.**
-/

namespace ComponentLint

/-! ### What is open on a path -/

/-- The names a node declares, as one scope if there are any. -/
def ownScope (parent : Option Node) (n : Node) : List (List String) :=
  if (n.declaredNames parent).isEmpty then [] else [n.declaredNames parent]

/-- The names declared by the nodes of a path below a parent, the outermost first; a node that
declares none has no scope. -/
def scopesOn (parent : Option Node) : List Node → List (List String)
  | [] => []
  | n :: rest => ownScope parent n ++ scopesOn (some n) rest

/-- Scopes inside of what is open already, the innermost first. -/
def openedBy (scopes : List (List String)) (opened : List Bracket) : List Bracket :=
  (scopes.map fun names => Bracket.scope (openScope names)).reverse ++ opened

theorem openedBy_append (outer inside : List (List String)) (opened : List Bracket) :
    openedBy (outer ++ inside) opened = openedBy inside (openedBy outer opened) := by
  rw [openedBy, openedBy, openedBy, List.map_append, List.reverse_append, List.append_assoc]

/-- The visit of the node at the end of a path, if it has an expression: the expression stands
between parentheses, inside the scopes of the path. -/
def visitWithin (parent : Option Node) (opened : List Bracket) (path : List Node) : Option Visit :=
  (path.getLast?.bind Node.expression).map fun e =>
    ⟨e.span, true, .parenthesis :: openedBy (scopesOn parent path) opened⟩

/-- The visit of the node at the end of a path from the root. -/
def visitOf (path : List Node) : Option Visit := visitWithin none [] path

/-- The visits of a node and of all nodes below it. -/
def visitsWithin (parent : Option Node) (opened : List Bracket) (n : Node) : List Visit :=
  n.paths.filterMap (visitWithin parent opened)

/-- On a longer path, the first node only opens its scope. -/
theorem visitWithin_cons {parent : Option Node} {opened : List Bracket} {n m : Node}
    {path : List Node} (h : path ∈ m.paths) :
    visitWithin parent opened (n :: path) =
      visitWithin (some n) (openedBy (ownScope parent n) opened) path := by
  obtain ⟨rest, rfl⟩ := Node.exists_of_mem_paths h
  rw [visitWithin, visitWithin, scopesOn, openedBy_append, List.getLast?_cons_cons]

/-- The visits of a node are its own and those of the nodes right below it, inside its scope. -/
theorem visitsWithin_eq (parent : Option Node) (opened : List Bracket) (n : Node) :
    visitsWithin parent opened n =
      (visitWithin parent opened [n]).toList ++
        n.subnodes.flatMap (visitsWithin (some n) (openedBy (ownScope parent n) opened)) := by
  have hbelow : (n.subnodes.flatMap fun m => m.paths.map (n :: ·)).filterMap
        (visitWithin parent opened) =
      n.subnodes.flatMap (visitsWithin (some n) (openedBy (ownScope parent n) opened)) := by
    rw [List.filterMap_flatMap]
    refine List.flatMap_congr fun m _ => ?_
    rw [List.filterMap_map]
    exact List.filterMap_congr fun path hpath => visitWithin_cons hpath
  rw [visitsWithin, n.paths_eq, List.filterMap_cons, hbelow]
  cases visitWithin parent opened [n] <;> rfl

/-! ### The pieces of a node -/

/-- The pieces of nodes below a parent, one after the other, with `true` for attributes. -/
def entryPieces (document : Text) (parent : Node) (quoted : Bool) : List (Node × Bool) → Marked
  | [] => ([], quoted)
  | m :: rest =>
    let first := nodePieces document (some parent) m.2 quoted m.1
    let others := entryPieces document parent first.2 rest
    (first.1 ++ others.1, others.2)

theorem listPieces_eq (document : Text) (parent : Node) (isAttribute quoted : Bool)
    (nodes : List Node) :
    listPieces document parent isAttribute quoted nodes =
      entryPieces document parent quoted (nodes.map (·, isAttribute)) := by
  induction nodes generalizing quoted with
  | nil => rfl
  | cons n nodes ih => rw [listPieces, List.map_cons, entryPieces, ih]

/-- Nodes one after the other hand on the mark of a quoted attribute. -/
theorem entryPieces_append (document : Text) (parent : Node) (quoted : Bool)
    (front back : List (Node × Bool)) :
    entryPieces document parent quoted (front ++ back) =
      ((entryPieces document parent quoted front).1 ++
          (entryPieces document parent (entryPieces document parent quoted front).2 back).1,
        (entryPieces document parent (entryPieces document parent quoted front).2 back).2) := by
  induction front generalizing quoted with
  | nil => rfl
  | cons m front ih => rw [List.cons_append, entryPieces, entryPieces, ih, List.append_assoc]

theorem branchPieces_eq (document : Text) (parent : Node) (quoted : Bool) (branch : Option Node) :
    branchPieces document parent quoted branch =
      entryPieces document parent quoted (branch.toList.map (·, false)) := by
  cases branch with
  | none => rfl
  | some n => rw [branchPieces, Option.toList_some, List.map_singleton, entryPieces, entryPieces,
      List.append_nil]

theorem valuePieces_eq (document : Text) (parent n : Node) (quoted : Bool) :
    valuePieces document parent quoted n.value =
      entryPieces document parent quoted (n.listedNodes.map (·, false)) := by
  rw [Node.listedNodes]
  split
  · next nodes hvalue => rw [hvalue, valuePieces, listPieces_eq]
  · next hvalue => rw [valuePieces, List.map_nil, entryPieces]; exact hvalue

/-- The statement of an expression. -/
def statementPieces (quoted : Bool) : Option Expression → List Piece
  | none => []
  | some e => [.scaffold ['('], .fragment e.span ⟨true, quoted⟩, .scaffold [')', ';']]

/-- Pieces inside the scope of a node, if it has one. -/
def scopedPieces (parent : Option Node) (n : Node) (pieces : List Piece) : List Piece :=
  if (n.declaredNames parent).isEmpty then pieces
  else .scaffold (openScope (n.declaredNames parent)) :: (pieces ++ [.scaffold ['\x7d']])

/-- **The pieces of a node**: its statement and the nodes below it, all inside its scope.  The mark
is set at the node if it was set before or the node is a quoted attribute, and it is handed on from
node to node; no attribute leaves it set. -/
theorem nodePieces_eq (document : Text) (parent : Option Node) (isAttribute quoted : Bool)
    (n : Node) :
    let mark := quoted || (isAttribute && quoteBefore document n.stop)
    let below := entryPieces document n mark n.entries
    nodePieces document parent isAttribute quoted n =
      (scopedPieces parent n (statementPieces mark n.expression ++ below.1),
        below.2 && !isAttribute) := by
  intro mark below
  -- the nodes below are written list by list, and each list hands its mark on to the next
  have hattributes := fun quoted => listPieces_eq document n true quoted n.attributes
  have hvalue := valuePieces_eq document n n
  have hchildren := fun quoted => listPieces_eq document n false quoted n.children
  have hbelow : below = entryPieces document n mark n.entries := rfl
  simp only [Node.entries, Node.contents, List.map_append, entryPieces_append, ← hattributes,
    ← hvalue, ← hchildren, ← branchPieces_eq] at hbelow
  rw [hbelow, scopedPieces]
  obtain ⟨kind, start, stop, name, expression, context, index, value, error, attributes, children,
    pending, thenBranch, catchBranch, elseBranch⟩ := n
  unfold nodePieces
  dsimp only
  split
  · cases expression <;> simp [statementPieces, mark]
  · cases expression <;> simp [statementPieces, mark]

/-! ### Balanced nodes -/

theorem balanced_statementPieces (document : Text) (parent : Option Node) (opened : List Bracket)
    (quoted : Bool) (n : Node) :
    Balanced document (openedBy (ownScope parent n) opened) (statementPieces quoted n.expression)
      (visitWithin parent opened [n]).toList := by
  have hvisit : visitWithin parent opened [n] = n.expression.map fun e =>
      ⟨e.span, true, .parenthesis :: openedBy (ownScope parent n) opened⟩ := by
    rw [visitWithin, scopesOn, scopesOn, List.append_nil]
    rfl
  rw [hvisit]
  cases n.expression with
  | none => exact .nil
  | some e => exact .enclosed rfl rfl (.fragment e.span ⟨true, quoted⟩)

/-- What is balanced inside the scope of a node is balanced with it. -/
theorem balanced_scopedPieces {document : Text} {parent : Option Node} {opened : List Bracket}
    {n : Node} {pieces : List Piece} {visits : List Visit}
    (h : Balanced document (openedBy (ownScope parent n) opened) pieces visits) :
    Balanced document opened (scopedPieces parent n pieces) visits := by
  unfold scopedPieces
  unfold ownScope at h
  split
  · next hnames =>
    rw [if_pos hnames] at h
    exact h
  · next hnames =>
    rw [if_neg hnames] at h
    exact .enclosed (Bracket.follow?_openScope opened _) rfl h

/-- Nodes that are balanced are balanced one after the other. -/
theorem balanced_entryPieces {document : Text} {parent : Node} {opened : List Bracket}
    (quoted : Bool) {entries : List (Node × Bool)}
    (h : ∀ m ∈ entries, ∀ quoted,
      Balanced document opened (nodePieces document (some parent) m.2 quoted m.1).1
        (visitsWithin (some parent) opened m.1)) :
    Balanced document opened (entryPieces document parent quoted entries).1
      ((entries.map Prod.fst).flatMap (visitsWithin (some parent) opened)) := by
  induction entries generalizing quoted with
  | nil => exact .nil
  | cons m entries ih =>
    have hrest := ih (nodePieces document (some parent) m.2 quoted m.1).2
      fun m' hm' => h m' (List.mem_cons_of_mem _ hm')
    rw [entryPieces, List.map_cons, List.flatMap_cons]
    exact (h m List.mem_cons_self quoted).append hrest

/-- **The pieces of a node are balanced**, and the fragments in them are the visits of the node and
of all nodes below it. -/
theorem balanced_nodePieces (document : Text) (n : Node) :
    ∀ (parent : Option Node) (opened : List Bracket) (isAttribute quoted : Bool),
      Balanced document opened (nodePieces document parent isAttribute quoted n).1
        (visitsWithin parent opened n) := by
  induction n using Node.subnodes_induction with
  | step n ih =>
    intro parent opened isAttribute quoted
    rw [nodePieces_eq, visitsWithin_eq, ← Node.map_fst_entries]
    -- everything below the node stands inside its scope
    refine balanced_scopedPieces (.append ?_ ?_)
    · exact balanced_statementPieces document parent opened _ n
    · apply balanced_entryPieces
      intro m hm quoted
      refine ih m.1 ?_ (some n) _ m.2 quoted
      rw [← Node.map_fst_entries]
      exact List.mem_map_of_mem hm

namespace Node

/-- The range of the expression of the node at the end of a path. -/
def spanAt (path : List Node) : Option Span := (path.getLast?.bind expression).map Expression.span

theorem map_range_visits (root : Node) :
    (root.paths.filterMap visitOf).map Visit.range = root.paths.filterMap spanAt := by
  rw [List.map_filterMap]
  refine List.filterMap_congr fun path _ => ?_
  rw [visitOf, visitWithin, Option.map_map, spanAt]
  rfl

/-- **The template is written expression by expression, each in its scopes.**  For every block,
document and template:

* the brackets that the script of the template opens are closed in their order and none is left
  open; its fragments are the expressions of the nodes, one for each path from the root to a node
  that has one, in the order of the paths; each is marked as one of the template, and what is open
  around it is a parenthesis inside the scopes of the nodes on its path that declare names;
* if the document has the ranges of all expressions, the script is written behind the block, with
  one placement for each fragment, in the same order;
* otherwise writing reports the first range, in this order, that the document does not have. -/
theorem write_pieces_visits (b : Block) (document : Text) (root : Node) :
    let spans := root.paths.filterMap spanAt
    let written := b.write document (root.pieces document)
    (∃ spots, outline? document b.code [] (root.pieces document) = some spots ∧
      spots.map Spot.visit = root.paths.filterMap visitOf ∧
      ((∀ span ∈ spans, span.slice? document ≠ none) →
        written.2 = none ∧
        written.1.code = b.code ++ (root.pieces document).flatMap (Piece.text document) ∧
        ∃ placements, written.1.placements = b.placements ++ placements ∧
          List.Forall₂ Spot.Placed spots placements)) ∧
    written.2 = spans.find? fun span => (span.slice? document).isNone := by
  intro spans written
  have hbalanced : Balanced document [] (root.pieces document) (root.paths.filterMap visitOf) :=
    balanced_nodePieces document root none [] false false
  obtain ⟨spots, houtline, hvisits⟩ := hbalanced.exists_outline b.code
  have hranges : ranges (root.pieces document) = spans := by
    rw [ranges_eq_of_outline? houtline]
    refine Eq.trans ?_ root.map_range_visits
    rw [← hvisits, List.map_map]
    rfl
  have hfailed : written.2 = spans.find? fun span => (span.slice? document).isNone := by
    rw [← hranges]
    exact b.write_range document (root.pieces document)
  refine ⟨⟨spots, houtline, hvisits, fun hvalid => ⟨?_, ?_⟩⟩, hfailed⟩
  · rw [hfailed, List.find?_eq_none]
    intro span hspan
    rw [Option.isNone_iff_eq_none]
    exact hvalid span hspan
  · rw [← hranges] at hvalid
    exact Block.write_outline houtline hvalid

end Node

end ComponentLint
