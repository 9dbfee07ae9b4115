import ComponentLint.Proofs.Lists
import ComponentLint.Proofs.Template.Walk
import Mathlib.Data.List.Chain

/-!
# Marks of quoted attributes

While the template is written, one mark says whether a quoted attribute is open.  It is set when a
quoted attribute is entered and taken away when any attribute is left.  Whoever knows the trail
from the root to a node, with the nodes that were visited on the way, can tell the mark at the
node: it is set if a quoted attribute of the trail was entered and no attribute was left since.

An attribute that is left while a quoted one is open must be one below it.  So the mark says
whether a node is in a quoted attribute, unless that attribute has attributes below itself.

## Main definitions

* `Node.holdsAttribute n` — there are attributes at or below a node.
* `Step` — a node that is visited, and what was visited before it below the same parent.
* `Node.trails root` — the trails from the root to all nodes, in the order of the visits.
* `Step.IsQuoted d s` — a step enters an attribute that ends with a quote.
* `MarkedOn d trail` — a quoted attribute was entered on a trail, and no attribute left since.

## Main statements

* `mark_nodePieces` — the mark after a node.
* `markOn_iff` — the mark at the end of a trail.
* `fragments_nodePieces` — **the expressions of a node, with the marks on the trails to them.**
* `Node.write_pieces_marks` — **which expressions are marked as quoted.**
-/

namespace ComponentLint

open Text

/-! ### Attributes below a node -/

namespace Node

theorem sizeOf_lt_of_mem_contents {n m : Node} (h : m ∈ n.contents) : sizeOf m < sizeOf n :=
  sizeOf_lt_of_mem_subnodes (List.mem_append_right _ h)

/-- Whether there are attributes at or below a node. -/
def holdsAttribute (n : Node) : Bool :=
  !n.attributes.isEmpty || n.contents.attach.any fun m => m.1.holdsAttribute
termination_by sizeOf n
decreasing_by exact sizeOf_lt_of_mem_contents m.2

theorem holdsAttribute_eq (n : Node) :
    n.holdsAttribute = (!n.attributes.isEmpty || n.contents.any holdsAttribute) := by
  rw [holdsAttribute, List.any_subtype (g := holdsAttribute) fun _ _ => rfl, List.unattach_attach]

end Node

/-- Whether an attribute is left when a node that is visited is left, with `true` for an
attribute. -/
def leavesAttribute (m : Node × Bool) : Bool := m.2 || m.1.holdsAttribute

theorem Node.any_leavesAttribute_entries (n : Node) :
    n.entries.any leavesAttribute = n.holdsAttribute := by
  rw [holdsAttribute_eq, entries, List.any_append, List.any_map, List.any_map]
  congr 1
  cases n.attributes <;> simp [leavesAttribute]

/-! ### Trails -/

/-- A node that is visited. -/
structure Step where
  node : Node
  /-- The node is visited as an attribute of its parent. -/
  isAttribute : Bool
  /-- The nodes below the same parent that were visited before, with `true` for attributes. -/
  earlier : List (Node × Bool)

/-- The steps to nodes below the same parent, when some were visited before. -/
def stepsFrom (earlier : List (Node × Bool)) : List (Node × Bool) → List Step
  | [] => []
  | m :: rest => ⟨m.1, m.2, earlier⟩ :: stepsFrom (earlier ++ [m]) rest

theorem map_node_stepsFrom (earlier entries : List (Node × Bool)) :
    (stepsFrom earlier entries).map Step.node = entries.map Prod.fst := by
  induction entries generalizing earlier with
  | nil => rfl
  | cons m entries ih => rw [stepsFrom, List.map_cons, List.map_cons, ih]

/-- A step goes to one of the nodes, behind those before it. -/
theorem exists_of_mem_stepsFrom {earlier entries : List (Node × Bool)} {s : Step}
    (h : s ∈ stepsFrom earlier entries) :
    ∃ front back, entries = front ++ (s.node, s.isAttribute) :: back ∧
      s.earlier = earlier ++ front := by
  induction entries generalizing earlier with
  | nil => cases h
  | cons m entries ih =>
    rcases List.mem_cons.1 h with rfl | h
    · exact ⟨[], entries, rfl, (List.append_nil _).symm⟩
    · obtain ⟨front, back, rfl, hearlier⟩ := ih h
      refine ⟨m :: front, back, rfl, ?_⟩
      rw [hearlier, List.append_assoc]
      rfl

/-- The steps from a node to the nodes right below it. -/
def Node.steps (n : Node) : List Step := stepsFrom [] n.entries

theorem Node.map_node_steps (n : Node) : n.steps.map Step.node = n.subnodes := by
  rw [steps, map_node_stepsFrom, map_fst_entries]

theorem Node.mem_subnodes_of_mem_steps {n : Node} {s : Step} (h : s ∈ n.steps) :
    s.node ∈ n.subnodes := by
  rw [← map_node_steps]
  exact List.mem_map_of_mem h

namespace Step

/-- An attribute was left since the parent of the node was entered. -/
def leftAttribute (s : Step) : Bool := s.earlier.any leavesAttribute

/-- The trails that go on from a step, in the order of the visits. -/
def trails (s : Step) : List (List Step) :=
  [s] :: s.node.steps.attach.flatMap fun next => (trails next.1).map (s :: ·)
termination_by sizeOf s.node
decreasing_by exact Node.sizeOf_lt_of_mem_subnodes (Node.mem_subnodes_of_mem_steps next.2)

theorem trails_eq (s : Step) :
    s.trails = [s] :: s.node.steps.flatMap fun next => next.trails.map (s :: ·) := by
  rw [trails, List.flatMap_subtype (g := fun next => next.trails.map (s :: ·)) fun _ _ => rfl,
    List.unattach_attach]

/-- Induction on the tree below a step. -/
@[elab_as_elim]
theorem trails_induction {motive : Step → Prop}
    (step : ∀ s, (∀ next ∈ s.node.steps, motive next) → motive s) (s : Step) : motive s :=
  step s fun next _ => trails_induction step next
termination_by sizeOf s.node
decreasing_by exact Node.sizeOf_lt_of_mem_subnodes (Node.mem_subnodes_of_mem_steps ‹_›)

/-- The nodes of the trails are the paths. -/
theorem map_node_trails (s : Step) : s.trails.map (·.map Step.node) = s.node.paths := by
  induction s using trails_induction with
  | step s ih =>
    rw [trails_eq, Node.paths_eq, ← Node.map_node_steps, List.map_cons, List.map_flatMap,
      List.flatMap_map]
    congr 1
    apply List.flatMap_congr
    intro next hnext
    rw [← ih next hnext, List.map_map, List.map_map]
    rfl

/-- The trails are the ways from node to node, each right below the one before. -/
theorem mem_trails_iff {s : Step} {trail : List Step} :
    trail ∈ s.trails ↔
      trail.head? = some s ∧ trail.IsChain fun s next => next ∈ s.node.steps := by
  induction trail generalizing s with
  | nil =>
    rw [trails_eq]
    simp
  | cons first later ih =>
    rw [trails_eq, List.mem_cons, List.mem_flatMap, List.head?_cons, Option.some_inj,
      List.isChain_cons]
    constructor
    · intro h
      rcases h with h | ⟨next, hnext, h⟩
      · obtain ⟨rfl, rfl⟩ := List.cons.inj h
        exact ⟨rfl, by simp, .nil⟩
      · obtain ⟨rest, hrest, hcons⟩ := List.mem_map.1 h
        obtain ⟨rfl, rfl⟩ := List.cons.inj hcons
        obtain ⟨hhead, hchain⟩ := ih.1 hrest
        exact ⟨rfl, by simpa [hhead] using hnext, hchain⟩
    · intro h
      obtain ⟨rfl, hnext, hchain⟩ := h
      cases later with
      | nil => exact .inl rfl
      | cons next later =>
        exact .inr ⟨next, hnext next rfl, List.mem_map_of_mem (ih.2 ⟨rfl, hchain⟩)⟩

end Step

/-- The trails from the root of a template, in the order of the visits. -/
def Node.trails (root : Node) : List (List Step) := Step.trails ⟨root, false, []⟩

/-- On the way from a node to one below it, an attribute is left only if the node has some. -/
theorem holdsAttribute_of_leftAttribute {s next : Step} {later : List Step}
    (hchain : (s :: later).IsChain fun s next => next ∈ s.node.steps) (hnext : next ∈ later)
    (hleft : next.leftAttribute = true) : s.node.holdsAttribute = true := by
  induction later generalizing s with
  | nil => cases hnext
  | cons first later ih =>
    obtain ⟨hfirst, hchain⟩ := List.isChain_cons_cons.1 hchain
    obtain ⟨front, back, hentries, hearlier⟩ := exists_of_mem_stepsFrom hfirst
    rw [← Node.any_leavesAttribute_entries, hentries, List.any_append, List.any_cons]
    rcases List.mem_cons.1 hnext with rfl | hnext
    · rw [Step.leftAttribute, hearlier, List.nil_append] at hleft
      rw [hleft, Bool.true_or]
    · rw [leavesAttribute, ih hchain hnext, Bool.or_true, Bool.true_or, Bool.or_true]

/-! ### The mark -/

/-- A quote stands before an offset exactly if one ends there. -/
theorem quoteBefore_succ_iff {document : Text} {last : Nat} :
    quoteBefore document (last + 1) = true ↔ ∃ before c after,
      document = before ++ c :: after ∧ size before = last ∧ (c = '\x22' ∨ c = '\x27') := by
  rw [quoteBefore]
  constructor
  · intro h
    split at h
    · next before c after hcut =>
      obtain ⟨hdocument, hsize⟩ := cut?_eq_some_iff.1 hcut
      exact ⟨before, c, after, hdocument, hsize, by simpa using h⟩
    · cases h
  · rintro ⟨before, c, after, rfl, rfl, hc⟩
    have hcut : cut? (before ++ c :: after) (size before) = some (before, c :: after) :=
      cut?_eq_some_iff.2 ⟨rfl, rfl⟩
    rw [hcut]
    simpa using hc

/-- The byte just before the end of a node is a quote. -/
def Node.EndsWithQuote (document : Text) (n : Node) : Prop :=
  ∃ i, n.stop = i + 1 ∧ ((bytes document)[i]? = some 34 ∨ (bytes document)[i]? = some 39)

theorem quoteBefore_stop_iff {document : Text} {n : Node} :
    quoteBefore document n.stop = true ↔ n.EndsWithQuote document := by
  have hdouble : String.utf8EncodeChar '\x22' = [34] := by decide
  have hsingle : String.utf8EncodeChar '\x27' = [39] := by decide
  simp only [Node.EndsWithQuote, getElem?_bytes_eq_some_iff (by decide) hdouble,
    getElem?_bytes_eq_some_iff (by decide) hsingle]
  cases n.stop with
  | zero => simp [quoteBefore]
  | succ last =>
    rw [quoteBefore_succ_iff]
    constructor
    · rintro ⟨before, c, after, hdocument, hsize, rfl | rfl⟩
      · exact ⟨last, rfl, Or.inl ⟨before, after, hdocument, hsize⟩⟩
      · exact ⟨last, rfl, Or.inr ⟨before, after, hdocument, hsize⟩⟩
    · rintro ⟨i, hi, ⟨before, after, hdocument, hsize⟩ | ⟨before, after, hdocument, hsize⟩⟩
      · obtain rfl := Nat.succ.inj hi
        exact ⟨before, _, after, hdocument, hsize, Or.inl rfl⟩
      · obtain rfl := Nat.succ.inj hi
        exact ⟨before, _, after, hdocument, hsize, Or.inr rfl⟩

/-- A step enters an attribute that ends with a quote. -/
def Step.IsQuoted (document : Text) (s : Step) : Prop :=
  s.isAttribute = true ∧ s.node.EndsWithQuote document

/-- A step enters a quoted attribute. -/
def Step.entersQuoted (document : Text) (s : Step) : Bool :=
  s.isAttribute && quoteBefore document s.node.stop

theorem Step.entersQuoted_iff {document : Text} {s : Step} :
    s.entersQuoted document = true ↔ s.IsQuoted document := by
  rw [entersQuoted, Bool.and_eq_true, quoteBefore_stop_iff, IsQuoted]

/-- The mark at the end of a trail, if it was set or not when the parent of the first node was
entered. -/
def markOn (document : Text) (quoted : Bool) : List Step → Bool
  | [] => quoted
  | s :: rest => markOn document ((quoted && !s.leftAttribute) || s.entersQuoted document) rest

/-- A quoted attribute was entered on a trail, and no attribute was left since. -/
def MarkedOn (document : Text) (trail : List Step) : Prop :=
  ∃ before s after, trail = before ++ s :: after ∧ s.IsQuoted document ∧
    ∀ next ∈ after, next.leftAttribute = false

/-- The mark is set exactly if it was set at first and no attribute was left, or if a quoted
attribute was entered and no attribute left since. -/
theorem markOn_iff {document : Text} {quoted : Bool} {trail : List Step} :
    markOn document quoted trail = true ↔
      (quoted = true ∧ ∀ s ∈ trail, s.leftAttribute = false) ∨
      MarkedOn document trail := by
  unfold MarkedOn
  induction trail generalizing quoted with
  | nil => simp [markOn]
  | cons first trail ih =>
    rw [markOn, ih, Bool.or_eq_true, Bool.and_eq_true, Bool.not_eq_true', Step.entersQuoted_iff,
      List.forall_mem_cons]
    constructor
    · rintro (⟨⟨hquoted, hfirst⟩ | henters, htrail⟩ | ⟨before, s, after, rfl, hs, hafter⟩)
      · exact Or.inl ⟨hquoted, hfirst, htrail⟩
      · exact Or.inr ⟨[], first, trail, rfl, henters, htrail⟩
      · exact Or.inr ⟨first :: before, s, after, rfl, hs, hafter⟩
    · rintro (⟨hquoted, hfirst, htrail⟩ | ⟨before, s, after, heq, hs, hafter⟩)
      · exact Or.inl ⟨Or.inl ⟨hquoted, hfirst⟩, htrail⟩
      · cases before with
        | nil =>
          obtain ⟨rfl, rfl⟩ := List.cons.inj heq
          exact Or.inl ⟨Or.inr hs, hafter⟩
        | cons _ before =>
          obtain ⟨rfl, rfl⟩ := List.cons.inj heq
          exact Or.inr ⟨before, s, after, rfl, hs, hafter⟩

/-- The mark after nodes below the same parent: each of them takes it away if it leaves an
attribute. -/
theorem mark_entryPieces {document : Text} {parent : Node} {entries : List (Node × Bool)}
    (h : ∀ m ∈ entries, ∀ quoted, (nodePieces document (some parent) m.2 quoted m.1).2 =
      (quoted && !leavesAttribute m)) (quoted : Bool) :
    (entryPieces document parent quoted entries).2 = (quoted && !entries.any leavesAttribute) := by
  induction entries generalizing quoted with
  | nil => simp [entryPieces]
  | cons m entries ih =>
    obtain ⟨hm, hentries⟩ := List.forall_mem_cons.1 h
    rw [entryPieces, hm, ih hentries, List.any_cons, Bool.not_or, Bool.and_assoc]

/-- **The mark after a node**: it stays set if the node is no attribute and has none below. -/
theorem mark_nodePieces (document : Text) (n : Node) :
    ∀ (parent : Option Node) (isAttribute quoted : Bool),
      (nodePieces document parent isAttribute quoted n).2 =
        (quoted && !leavesAttribute (n, isAttribute)) := by
  induction n using Node.subnodes_induction with
  | step n ih =>
    intro parent isAttribute quoted
    have hbelow : ∀ m ∈ n.entries, ∀ quoted, (nodePieces document (some n) m.2 quoted m.1).2 =
        (quoted && !leavesAttribute m) := by
      intro m hm quoted
      apply ih m.1
      rw [← Node.map_fst_entries]
      exact List.mem_map_of_mem hm
    rw [nodePieces_eq]
    dsimp only
    rw [mark_entryPieces hbelow, Node.any_leavesAttribute_entries, leavesAttribute]
    cases isAttribute <;> simp

/-! ### The fragments of a node -/

/-- The expression at the end of a trail. -/
def expressionAt (trail : List Step) : Option Expression := trail.getLast?.bind (·.node.expression)

/-- The fragment of the expression at the end of a trail. -/
def markedFragment (document : Text) (quoted : Bool) (trail : List Step) : Option (Span × Flags) :=
  (expressionAt trail).map fun e => (e.span, ⟨true, markOn document quoted trail⟩)

theorem fragments_scopedPieces (parent : Option Node) (n : Node) (pieces : List Piece) :
    fragments (scopedPieces parent n pieces) = fragments pieces := by
  unfold scopedPieces
  split
  · rfl
  · rw [← List.singleton_append, fragments_append, fragments_append]
    exact List.append_nil _

theorem fragments_statementPieces (quoted : Bool) (e : Option Expression) :
    fragments (statementPieces quoted e) =
      (e.map fun e => (e.span, (⟨true, quoted⟩ : Flags))).toList := by
  cases e <;> rfl

/-- Nodes below the same parent are written step by step, each with the mark that is left. -/
theorem fragments_entryPieces (document : Text) (parent : Node) (quoted : Bool)
    (earlier entries : List (Node × Bool)) :
    fragments (entryPieces document parent (quoted && !earlier.any leavesAttribute) entries).1 =
      (stepsFrom earlier entries).flatMap fun s =>
        fragments (nodePieces document (some parent) s.isAttribute
          (quoted && !s.leftAttribute) s.node).1 := by
  induction entries generalizing earlier with
  | nil => rfl
  | cons m entries ih =>
    have hmark : (nodePieces document (some parent) m.2 (quoted && !earlier.any leavesAttribute)
        m.1).2 = (quoted && !(earlier ++ [m]).any leavesAttribute) := by
      rw [mark_nodePieces, List.any_append, Bool.and_assoc, ← Bool.not_or, List.any_cons,
        List.any_nil, Bool.or_false]
    rw [entryPieces, stepsFrom, List.flatMap_cons, fragments_append, hmark, ih]
    rfl

/-- **The fragments of a node are the expressions at and below it**, each with the mark on the trail
to it. -/
theorem fragments_nodePieces (document : Text) (s : Step) :
    ∀ (parent : Option Node) (quoted : Bool),
      fragments (nodePieces document parent s.isAttribute (quoted && !s.leftAttribute) s.node).1 =
        s.trails.filterMap (markedFragment document quoted) := by
  induction s using Step.trails_induction with
  | step s ih =>
    intro parent quoted
    let mark := (quoted && !s.leftAttribute) || s.entersQuoted document
    -- on a longer trail, the first node only changes the mark
    have hlonger : ∀ next ∈ s.node.steps, ∀ trail ∈ next.trails,
        markedFragment document quoted (s :: trail) = markedFragment document mark trail := by
      intro next _ trail htrail
      obtain ⟨rest, rfl⟩ := List.head?_eq_some_iff.1 (Step.mem_trails_iff.1 htrail).1
      rw [markedFragment, markedFragment, markOn, expressionAt, List.getLast?_cons_cons]
      rfl
    have hbelow := fragments_entryPieces document s.node mark [] s.node.entries
    rw [List.any_nil, Bool.not_false, Bool.and_true] at hbelow
    have hnode := nodePieces_eq document parent s.isAttribute (quoted && !s.leftAttribute) s.node
    rw [hnode, Step.trails_eq, List.filterMap_cons, fragments_scopedPieces, fragments_append,
      fragments_statementPieces, List.filterMap_flatMap]
    have hsteps : s.node.steps.flatMap (fun next =>
          (next.trails.map (s :: ·)).filterMap (markedFragment document quoted)) =
        fragments (entryPieces document s.node mark s.node.entries).1 := by
      rw [hbelow]
      apply List.flatMap_congr
      intro next hnext
      rw [ih next hnext, List.filterMap_map]
      apply List.filterMap_congr
      intro trail htrail
      exact hlonger next hnext trail htrail
    rw [hsteps]
    cases hexpression : s.node.expression with
    | none => simp [markedFragment, expressionAt, hexpression, mark, Step.entersQuoted]
    | some e => simp [markedFragment, expressionAt, hexpression, mark, Step.entersQuoted, markOn]

/-! ### Written templates -/

/-- If no quoted attribute on a trail has attributes at or below it, the mark says whether there is
a quoted attribute on the trail. -/
theorem markedOn_iff_of_flat {document : Text} {root : Node} {trail : List Step}
    (htrail : trail ∈ root.trails)
    (hflat : ∀ s ∈ trail, s.IsQuoted document → s.node.holdsAttribute = false) :
    MarkedOn document trail ↔ ∃ s ∈ trail, s.IsQuoted document := by
  constructor
  · rintro ⟨before, s, after, rfl, hs, -⟩
    exact ⟨s, by simp, hs⟩
  · rintro ⟨s, hmem, hs⟩
    obtain ⟨before, after, rfl⟩ := List.append_of_mem hmem
    refine ⟨before, s, after, rfl, hs, ?_⟩
    intro next hnext
    -- what is left below the quoted attribute would be an attribute of it
    have hchain := (Step.mem_trails_iff.1 htrail).2.right_of_append
    rw [Bool.eq_false_iff]
    intro hleft
    have hholds := holdsAttribute_of_leftAttribute hchain hnext hleft
    rw [hflat s hmem hs] at hholds
    cases hholds

/-- A placement is that of the expression at the end of a trail, with its marks. -/
structure PlacedOn (document : Text) (trail : List Step) (p : Placement) : Prop where
  range_eq : (expressionAt trail).map Expression.span = some p.range
  template_eq : p.flags.template = true
  quoted_iff : p.flags.quoted = true ↔ MarkedOn document trail
  /-- Attributes of attributes apart, the mark says whether there is a quoted attribute. -/
  quoted_iff_of_flat : (∀ s ∈ trail, s.IsQuoted document → s.node.holdsAttribute = false) →
    (p.flags.quoted = true ↔ ∃ s ∈ trail, s.IsQuoted document)

/-- **Which expressions are marked as quoted.**  The trails of a template are its paths.  If the
template is written, there is one placement for each trail to a node with an expression, in their
order.  It is marked as quoted exactly if a quoted attribute was entered on the trail and no
attribute was left since; that is, if there is a quoted attribute on the trail, unless one of these
has attributes at or below it. -/
theorem Node.write_pieces_marks {b : Block} {document : Text} {root : Node}
    (h : (b.write document (root.pieces document)).2 = none) :
    root.trails.map (·.map Step.node) = root.paths ∧
    ∃ placements,
      (b.write document (root.pieces document)).1.placements = b.placements ++ placements ∧
      List.Forall₂ (PlacedOn document)
        (root.trails.filter fun trail => (expressionAt trail).isSome) placements := by
  refine ⟨Step.map_node_trails _, ?_⟩
  obtain ⟨placements, hplacements, hfragments⟩ := Block.write_fragments h
  refine ⟨placements, hplacements, ?_⟩
  have hnode : fragments (root.pieces document) =
      root.trails.filterMap (markedFragment document false) :=
    fragments_nodePieces document ⟨root, false, []⟩ none false
  have hplaced := forall₂_filter_of_map_eq_filterMap (hfragments.trans hnode)
  simp only [markedFragment, Option.isSome_map] at hplaced
  refine forall₂_imp_of_mem hplaced ?_
  intro trail htrail p hp
  obtain ⟨e, he, hflags⟩ := Option.map_eq_some_iff.1 hp
  obtain ⟨hrange, hflags⟩ := Prod.mk.inj hflags
  have hquoted : p.flags.quoted = true ↔ MarkedOn document trail := by
    rw [← hflags, markOn_iff, or_iff_right]
    intro h
    cases h.1
  refine ⟨by rw [he, ← hrange]; rfl, by rw [← hflags], hquoted, ?_⟩
  intro hflat
  rw [hquoted]
  exact markedOn_iff_of_flat (List.mem_filter.1 htrail).1 hflat

/-! ### Two templates -/

/-- A tag with an expression of one byte. -/
def shortTag (start : Nat) : Node :=
  { kind := .mustacheTag, start := start, stop := start + 3,
    expression := some ⟨start + 1, start + 2, []⟩ }

/-- An attribute with nodes in its value. -/
def filledAttribute (start stop : Nat) (nodes : List Node) : Node :=
  { kind := NodeKind.attribute, start := start, stop := stop, value := some (.nodes nodes) }

/-- The text of an element with a quoted and an unquoted attribute. -/
def twoAttributesText : Text := "<a href=\"\x7bx\x7d\" title=\x7by\x7d>".toList

/-- The element with the two attributes. -/
def twoAttributes : Node :=
  { kind := .element, start := 0, stop := 24,
    attributes := [filledAttribute 3 13 [shortTag 9], filledAttribute 14 23 [shortTag 20]] }

/-- Of the two attributes, the expression of the first one is marked. -/
theorem Node.write_pieces_marks_twoAttributes :
    let written := Block.empty.write twoAttributesText (twoAttributes.pieces twoAttributesText)
    written.2 = none ∧
      written.1.placements.map (fun p => (p.range, p.flags.quoted)) =
        [(⟨10, 11⟩, true), (⟨21, 22⟩, false)] ∧
      twoAttributes.trails.map (·.map Step.node) = twoAttributes.paths ∧
      ∃ placements, written.1.placements = [] ++ placements ∧
        List.Forall₂ (PlacedOn twoAttributesText)
          (twoAttributes.trails.filter fun trail => (expressionAt trail).isSome) placements := by
  intro written
  have hwritten : written.2 = none := by decide
  exact ⟨hwritten, by decide, Node.write_pieces_marks hwritten⟩

/-- The text of a quoted attribute that holds an element with an attribute, and an expression. -/
def nestedAttributeText : Text := "<a t=\"<b c>\x7bx\x7d\">".toList

/-- The element with an attribute. -/
def innerElement : Node :=
  { kind := .element, start := 6, stop := 11, attributes := [filledAttribute 9 10 []] }

/-- The quoted attribute around it. -/
def outerAttribute : Node := filledAttribute 3 15 [innerElement, shortTag 11]

/-- The element with the quoted attribute. -/
def nestedAttribute : Node :=
  { kind := .element, start := 0, stop := 16, attributes := [outerAttribute] }

/-- An expression in a quoted attribute is not marked: an element with an attribute of its own comes
before it. -/
theorem Node.mark_lost_behind_attribute :
    let written :=
      Block.empty.write nestedAttributeText (nestedAttribute.pieces nestedAttributeText)
    written.2 = none ∧
      written.1.placements.map (fun p => (p.range, p.flags.quoted)) = [(⟨12, 13⟩, false)] ∧
      ∃ trail ∈ nestedAttribute.trails,
        (expressionAt trail).map Expression.span = some ⟨12, 13⟩ ∧
        ∃ s ∈ trail, s.IsQuoted nestedAttributeText := by
  refine ⟨by decide, by decide, [⟨nestedAttribute, false, []⟩, ⟨outerAttribute, true, []⟩,
    ⟨shortTag 11, false, [(innerElement, false)]⟩], ?_, rfl, ⟨outerAttribute, true, []⟩, by simp,
    rfl, 14, rfl, Or.inl (by decide)⟩
  rw [Node.trails, Step.mem_trails_iff]
  refine ⟨rfl, .cons_cons ?_ (.cons_cons ?_ (.singleton _))⟩
  · exact List.mem_cons_self
  · exact List.mem_cons_of_mem _ List.mem_cons_self

end ComponentLint
