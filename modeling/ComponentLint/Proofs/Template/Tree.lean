import ComponentLint.Template.Node

/-!
# Template trees

## Main definitions

* `Node.subnodes n` — the nodes right below a node, in the order in which they are visited.
* `Node.entries n` — the same nodes, with the attributes marked.
* `Node.paths n` — the paths from a node to itself and to all nodes below it.

## Main statements

* `Node.subnodes_induction` — induction on template trees.
-/

namespace ComponentLint

namespace Node

/-! ### Nodes below a node -/

/-- The nodes right below a node, other than its attributes. -/
def contents (n : Node) : List Node :=
  n.listedNodes ++ n.children ++ n.pending.toList ++ n.thenBranch.toList ++ n.catchBranch.toList
    ++ n.elseBranch.toList

/-- The nodes right below a node: its attributes, the nodes of its value, its children, and its
branches. -/
def subnodes (n : Node) : List Node := n.attributes ++ n.contents

/-- The nodes right below a node, with `true` for its attributes. -/
def entries (n : Node) : List (Node × Bool) :=
  n.attributes.map (·, true) ++ n.contents.map (·, false)

theorem map_fst_entries (n : Node) : n.entries.map Prod.fst = n.subnodes := by
  simp [entries, subnodes, Function.comp_def]

theorem sizeOf_lt_of_mem_subnodes {n m : Node} (h : m ∈ n.subnodes) : sizeOf m < sizeOf n := by
  obtain ⟨kind, start, stop, name, expression, context, index, value, error, attributes, children,
    pending, thenBranch, catchBranch, elseBranch⟩ := n
  simp only [subnodes, contents, listedNodes, List.mem_append, Option.mem_toList] at h
  rw [Node.mk.sizeOf_spec]
  rcases h with h | ((((h | h) | rfl) | rfl) | rfl) | rfl
  · have := List.sizeOf_lt_of_mem h
    omega
  · split at h
    · next nodes _ =>
      have := List.sizeOf_lt_of_mem h
      rw [Option.some.sizeOf_spec, NodeValue.nodes.sizeOf_spec]
      omega
    · cases h
  · have := List.sizeOf_lt_of_mem h
    omega
  all_goals
    rw [Option.some.sizeOf_spec]
    omega

/-- What holds for a node if it holds for the nodes right below it, holds for all nodes. -/
theorem subnodes_induction {motive : Node → Prop}
    (step : ∀ n, (∀ m ∈ n.subnodes, motive m) → motive n) (n : Node) : motive n :=
  step n fun m _ => subnodes_induction step m
termination_by sizeOf n
decreasing_by exact sizeOf_lt_of_mem_subnodes ‹_›

/-! ### Paths -/

/-- The paths from a node to itself and to all nodes below it.  A node comes before the nodes below
it, and these come in their order. -/
def paths (n : Node) : List (List Node) :=
  [n] :: n.subnodes.attach.flatMap fun m => (paths m.1).map (n :: ·)
termination_by sizeOf n
decreasing_by exact sizeOf_lt_of_mem_subnodes m.2

theorem paths_eq (n : Node) :
    n.paths = [n] :: n.subnodes.flatMap fun m => m.paths.map (n :: ·) := by
  rw [paths, List.flatMap_subtype (g := fun m => m.paths.map (n :: ·)) fun _ _ => rfl,
    List.unattach_attach]

/-- Paths start at the node. -/
theorem exists_of_mem_paths {n : Node} {path : List Node} (h : path ∈ n.paths) :
    ∃ rest, path = n :: rest := by
  rw [paths_eq, List.mem_cons, List.mem_flatMap] at h
  rcases h with rfl | ⟨m, -, h⟩
  · exact ⟨[], rfl⟩
  · obtain ⟨rest, -, rfl⟩ := List.mem_map.1 h
    exact ⟨rest, rfl⟩

end Node

end ComponentLint
