import ComponentLint.Proofs.Template.Patterns
import ComponentLint.Template.Script

/-!
# Scopes and the names they declare

A node of the template opens a scope for the names that it binds, with a single declaration of all
of them.  Its bindings are names and patterns, and what is declared for a pattern are its own names
and those in its default values and computed keys.

If the bindings bind a name at most once, a name can still be declared twice: it is enough that a
default value mentions a name that is bound beside it, or two names alike.  It cannot happen
otherwise.

## Main definitions

* `Node.bindings parent n` — the bindings of a node, in their order.
* `Binding` — a name or a pattern, with `Encodes` for the bindings of nodes.

## Main statements

* `Node.declaredNames_eq` — the declared names are those of the bindings.
* `Node.declaredNames_nodup_iff` — **when a scope declares no name twice.**
-/

namespace ComponentLint

/-! ### The bindings of a node -/

namespace Node

/-- What a `let:` directive binds: a pattern, or else a name. -/
def directiveBinding? (directive : Node) : Option Json :=
  match directive.expression with
  | some e => some (.object e.syntaxNode)
  | none => directive.name.map .string

/-- What a constant tag binds. -/
def constantBinding? (tag : Node) : Option Json := tag.expression.bind Expression.left?

/-- The bindings of a node, in their order. -/
def bindings (parent : Option Node) (n : Node) : List Json :=
  n.context.toList
    ++ (match n.kind with
      | .eachBlock => n.index.toList
      | .thenBlock => (parent.bind pattern?).toList
      | .catchBlock => (parent.bind error).toList
      | .element | .inlineComponent | .slotTemplate =>
        (n.attributes.filter (·.kind = .letDirective)).filterMap directiveBinding?
      | _ => [])
    ++ (n.children.filter (·.kind = .constTag)).filterMap constantBinding?

theorem optionalNames_eq (binding : Option Json) :
    optionalNames binding = binding.toList.flatMap ComponentLint.boundNames := by
  cases binding <;> simp [optionalNames]

theorem directiveNames_eq (directive : Node) :
    directive.directiveNames = optionalNames directive.directiveBinding? := by
  unfold directiveNames directiveBinding? optionalNames
  cases directive.expression with
  | some e => rfl
  | none => cases directive.name <;> rfl

theorem flatMap_optionalNames (f : Node → Option Json) (nodes : List Node) :
    nodes.flatMap (fun n => optionalNames (f n)) =
      (nodes.filterMap f).flatMap ComponentLint.boundNames := by
  induction nodes with
  | nil => rfl
  | cons n nodes ih =>
    rw [List.flatMap_cons, ih, List.filterMap_cons]
    cases f n <;> simp [optionalNames]

/-- The names that a node declares are those of its bindings. -/
theorem declaredNames_eq (parent : Option Node) (n : Node) :
    n.declaredNames parent = (n.bindings parent).flatMap ComponentLint.boundNames := by
  have hdirectives := flatMap_optionalNames directiveBinding?
    (n.attributes.filter (·.kind = .letDirective))
  have hconstants := flatMap_optionalNames constantBinding?
    (n.children.filter (·.kind = .constTag))
  simp only [← directiveNames_eq] at hdirectives
  unfold declaredNames bindings
  rw [List.flatMap_append, List.flatMap_append, ← optionalNames_eq, ← hconstants]
  congr 2
  cases n.kind <;> simp [← optionalNames_eq, ← hdirectives]

end Node

/-! ### Names and patterns -/

/-- What is bound: a name, or the parts of a pattern. -/
inductive Binding where
  | identifier (name : String)
  | pattern (pattern : BindingPattern)

namespace Binding

/-- The names that are bound, in their order. -/
def names : Binding → List String
  | .identifier name => [name]
  | .pattern p => p.names

/-- The expressions in a binding. -/
def asides : Binding → List Aside
  | .identifier _ => []
  | .pattern p => p.asides

/-- A document stands for a binding. -/
def Encodes : Binding → Json → Prop
  | .identifier name, j => j = .string name
  | .pattern p, j => p.Encodes j

theorem collects {b : Binding} {j : Json} (h : b.Encodes j) :
    Collects b.names b.asides (boundNames j) := by
  cases b with
  | identifier name =>
    obtain rfl := h
    exact ⟨.refl _, .refl _⟩
  | pattern p => exact BindingPattern.collects_boundNames h

theorem collects_flatMap {bindings : List Binding} {documents : List Json}
    (h : List.Forall₂ Encodes bindings documents) :
    Collects (bindings.flatMap names) (bindings.flatMap asides)
      (documents.flatMap boundNames) := by
  induction h with
  | nil => exact .nil
  | cons hfirst _ ih => exact (collects hfirst).append ih

end Binding

/-! ### Scopes -/

/-- Distinct names are collected exactly if no name is met twice in the expressions, and no bound
name is met there. -/
theorem Collects.nodup_iff {bound names : List String} {asides : List Aside}
    (h : Collects bound asides names) (hbound : bound.Nodup) :
    names.Nodup ↔
      (mentioned asides).Nodup ∧ ∀ name ∈ bound, ∀ a ∈ asides, ¬ Mentions name a.1 a.2 := by
  rw [h.perm.nodup_iff, List.nodup_append, and_iff_right hbound]
  refine and_congr_right fun _ => ?_
  constructor
  · intro hdisjoint name hname a ha hmentions
    exact hdisjoint name hname name (mem_mentioned_iff.2 ⟨a, ha, hmentions⟩) rfl
  · intro hdisjoint name hname other hother heq
    obtain ⟨a, ha, hmentions⟩ := mem_mentioned_iff.1 hother
    rw [← heq] at hmentions
    exact hdisjoint name hname a ha hmentions

/-- **When a scope declares no name twice.**  If the bindings of a node bind distinct names, all of
these are declared, in their order.  The declared names are distinct exactly if no name is met twice
in the default values and computed keys of the bindings, and no bound name is met there.  If there
are no names in these, just the bound names are declared. -/
theorem Node.declaredNames_nodup_iff {parent : Option Node} {n : Node} {bindings : List Binding}
    (h : List.Forall₂ Binding.Encodes bindings (n.bindings parent))
    (hdistinct : (bindings.flatMap Binding.names).Nodup) :
    (bindings.flatMap Binding.names).Sublist (n.declaredNames parent) ∧
    ((n.declaredNames parent).Nodup ↔
      (mentioned (bindings.flatMap Binding.asides)).Nodup ∧
      ∀ name ∈ bindings.flatMap Binding.names, ∀ a ∈ bindings.flatMap Binding.asides,
        ¬ Mentions name a.1 a.2) ∧
    ((∀ a ∈ bindings.flatMap Binding.asides, a.2.NameFree) →
      n.declaredNames parent = bindings.flatMap Binding.names) := by
  have hcollects := Binding.collects_flatMap h
  rw [← declaredNames_eq] at hcollects
  exact ⟨hcollects.sublist, hcollects.nodup_iff hdistinct, hcollects.eq_of_nameFree⟩

/-! ### A pattern with a default value -/

/-- An object pattern with the names `a` and `b`, and a default value for the second one. -/
def defaultPattern (default : Json) : BindingPattern :=
  .object (.keyed (.identifier "a") (.identifier nameA)
    (.keyed (.identifier "b") (.assignment (.identifier nameB) default) .nil))

/-- The tree of the pattern. -/
def defaultPatternTree (default : Json) : Json :=
  plainNode "ObjectPattern" [("properties", .array
    [plainNode "Property" [("value", nameTree "a"), ("key", nameTree "a")],
      plainNode "Property"
        [("value", plainNode "AssignmentPattern" [("left", nameTree "b"), ("right", default)]),
          ("key", nameTree "b")]])]

theorem encodes_defaultPatternTree (default : Json) :
    (defaultPattern default).Encodes (defaultPatternTree default) := by
  refine ⟨_, ⟨_, _, _, _, isNode_nameTree "a", isNode_nameTree "a", isNode_plainNode (by simp),
    ⟨_, _, _, _, isNode_nameTree "b", ?_, isNode_plainNode (by simp), rfl, rfl⟩, rfl⟩,
    isNode_plainNode (by simp)⟩
  exact ⟨_, isNode_nameTree "b", isNode_plainNode (by simp)⟩

/-- An `each` block that binds its items to the pattern. -/
def defaultBlock (default : Json) : Node :=
  { kind := .eachBlock, start := 0, stop := 40, context := some (defaultPatternTree default) }

/-- A tag for the constant `c`. -/
def constantTag : Node :=
  { kind := .constTag, start := 20, stop := 32,
    expression := some ⟨22, 31, [("left", nameTree "c")]⟩ }

/-- With a number as the default value, the names are declared once. -/
theorem Node.declaredNames_nodup_of_number :
    let n : Node :=
      { defaultBlock oneTree with index := some (.string "i"), children := [constantTag] }
    let bindings : List Binding := [.pattern (defaultPattern oneTree), .identifier "i",
      .pattern (.identifier ⟨"c", by decide⟩)]
    List.Forall₂ Binding.Encodes bindings (n.bindings none) ∧
      (bindings.flatMap Binding.names).Nodup ∧
      (∀ a ∈ bindings.flatMap Binding.asides, a.2.NameFree) ∧
      n.declaredNames none = ["a", "b", "i", "c"] := by
  intro n bindings
  have hencodes : List.Forall₂ Binding.Encodes bindings (n.bindings none) :=
    .cons (encodes_defaultPatternTree oneTree) (.cons rfl (.cons (isNode_nameTree "c") .nil))
  have hdistinct : (bindings.flatMap Binding.names).Nodup := by decide
  have hfree : ∀ a ∈ bindings.flatMap Binding.asides, a.2.NameFree := by
    intro a ha
    obtain rfl := List.mem_singleton.1 ha
    exact nameFree_oneTree
  exact ⟨hencodes, hdistinct, hfree, (Node.declaredNames_nodup_iff hencodes hdistinct).2.2 hfree⟩

/-- A default value that mentions the name beside it: the name is declared twice. -/
theorem Node.declaredNames_of_name_beside :
    let n := defaultBlock (nameTree "a")
    let bindings : List Binding := [.pattern (defaultPattern (nameTree "a"))]
    List.Forall₂ Binding.Encodes bindings (n.bindings none) ∧
      bindings.flatMap Binding.names = ["a", "b"] ∧
      n.declaredNames none = ["a", "b", "a"] ∧
      n.pieces [] = [.scaffold "\x7blet a=0,b=0,a=0;".toList, .scaffold ['\x7d']] := by
  exact ⟨.cons (encodes_defaultPatternTree _) .nil, rfl, by decide, by decide⟩

end ComponentLint
