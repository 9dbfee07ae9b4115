import ComponentLint.Proofs.Json.Values
import ComponentLint.Template.Binding
import Mathlib.Data.List.Flatten
import Mathlib.Data.List.Perm.Basic

/-!
# Patterns and the names they bind

A pattern of the script language is a name, or it takes an object or array apart and binds the
parts to patterns again.  It is given as a tree of syntax nodes, whose members come in any order.
The names are collected from that tree without any knowledge of patterns: every name below the
tree counts, except for those of nodes that are reached as a `key`.

All names that a pattern binds are collected, in their order.  What is collected beyond these comes
from the expressions in the pattern: its default values and computed keys.

## Main definitions

* `Json.NameFree j` — there is no syntax node with a name in a document.
* `Mentions name property j` — a name is that of a node below a document.
* `BindingPattern` — the patterns, with `names` and the expressions in them, `asides`.
* `IsNode kind fields j` — a document is a syntax node of a kind with some fields.
* `BindingPattern.Encodes p j` — a document is the tree of a pattern.

## Main statements

* `mem_namesBelow_iff` — which names are collected from any document.
* `BindingPattern.collects` — what is collected below the tree of a pattern.
* `BindingPattern.boundNames_of_encodes` — **the names that a binding by a pattern introduces.**
-/

namespace ComponentLint

/-! ### Names in documents -/

namespace Json

/-- A document stands in another one. -/
inductive Within (i : Json) : Json → Prop
  | self : Within i i
  | part {j k : Json} : k ∈ j.parts → Within i k → Within i j

/-- A document is a syntax node with a name. -/
def IsNamed (j : Json) : Prop :=
  ∃ members name, j = .object members ∧ Entries.has members "type" = true ∧
    Entries.get? members "name" = some (.string name) ∧ name ≠ ""

/-- There is no syntax node with a name in a document. -/
def NameFree (j : Json) : Prop := ∀ i, Within i j → ¬ IsNamed i

theorem nameFree_iff {j : Json} : j.NameFree ↔ ¬ j.IsNamed ∧ ∀ k ∈ j.parts, k.NameFree := by
  constructor
  · intro h
    exact ⟨h j .self, fun k hk i hi => h i (.part hk hi)⟩
  · intro h i hi
    cases hi with
    | self => exact h.1
    | part hk hi => exact h.2 _ hk i hi

end Json

theorem namesBelowItems_eq (property : String) (items : List Json) :
    namesBelowItems property items = items.flatMap (namesBelow property) := by
  induction items with
  | nil => rfl
  | cons j items ih => rw [namesBelowItems, ih, List.flatMap_cons]

theorem namesBelowMembers_eq (members : List (String × Json)) :
    namesBelowMembers members = members.flatMap fun m => namesBelow m.1 m.2 := by
  induction members with
  | nil => rfl
  | cons m members ih => rw [namesBelowMembers, ih, List.flatMap_cons]

theorem mem_ownName_iff {name property : String} {members : Entries Json} :
    name ∈ ownName (some property) members ↔
      property ≠ "key" ∧ members.get? "name" = some (.string name) ∧ name ≠ "" := by
  unfold ownName
  by_cases hkey : property = "key"
  · simp [hkey]
  · rw [if_neg (by simpa using hkey), and_iff_right hkey]
    split
    · next other hother =>
      rw [hother, Option.some_inj, Json.string.injEq]
      by_cases hempty : other = ""
      · simp [hempty]
      · simp only [String.isEmpty_iff, hempty, if_false, List.mem_singleton]
        constructor
        · intro h
          rw [h]
          exact ⟨rfl, hempty⟩
        · intro h
          exact h.1.symm
    · next hother =>
      constructor
      · intro h
        cases h
      · intro h
        exact absurd h.1 (hother name)

/-- A name is that of a syntax node below a document that was reached through a property.  Nodes are
met in arrays and below other nodes; one that was reached as a `key` does not count itself. -/
inductive Mentions (name : String) : String → Json → Prop
  | own {property : String} {members : Entries Json} : property ≠ "key" →
      members.has "type" = true → members.get? "name" = some (.string name) → name ≠ "" →
      Mentions name property (.object members)
  | member {property : String} {members : Entries Json} {m : String × Json} :
      members.has "type" = true → m ∈ members → Mentions name m.1 m.2 →
      Mentions name property (.object members)
  | item {property : String} {items : List Json} {j : Json} :
      j ∈ items → Mentions name property j → Mentions name property (.array items)

/-- **Which names are collected** below a document. -/
theorem mem_namesBelow_iff {name property : String} {j : Json} :
    name ∈ namesBelow property j ↔ Mentions name property j := by
  induction j using Json.induction generalizing property with
  | leaf j hj =>
    cases j with
    | array items => cases hj
    | object members => cases hj
    | _ =>
      constructor
      · intro h
        cases h
      · intro h
        cases h
  | array items ih =>
    rw [namesBelow, namesBelowItems_eq, List.mem_flatMap]
    constructor
    · intro h
      obtain ⟨j, hj, h⟩ := h
      exact .item hj ((ih j hj).1 h)
    · intro h
      cases h with
      | item hj h => exact ⟨_, hj, (ih _ hj).2 h⟩
  | object members ih =>
    rw [namesBelow]
    constructor
    · intro h
      split at h
      · next htype =>
        rw [List.mem_append, mem_ownName_iff, namesBelowMembers_eq, List.mem_flatMap] at h
        rcases h with ⟨hkey, hname, hempty⟩ | ⟨m, hm, h⟩
        · exact .own hkey htype hname hempty
        · exact .member htype hm ((ih m hm).1 h)
      · cases h
    · intro h
      cases h with
      | own hkey htype hname hempty =>
        rw [if_pos htype]
        exact List.mem_append_left _ (mem_ownName_iff.2 ⟨hkey, hname, hempty⟩)
      | member htype hm h =>
        rw [if_pos htype, namesBelowMembers_eq]
        exact List.mem_append_right _ (List.mem_flatMap.2 ⟨_, hm, (ih _ hm).2 h⟩)

/-- A name below a document is that of a syntax node in the document. -/
theorem Mentions.exists_within {name property : String} {j : Json} (h : Mentions name property j) :
    ∃ i, Json.Within i j ∧ i.IsNamed := by
  induction h with
  | own _ htype hname hempty => exact ⟨_, .self, _, _, rfl, htype, hname, hempty⟩
  | member _ hm _ ih =>
    obtain ⟨i, hi, hnamed⟩ := ih
    exact ⟨i, .part (List.mem_map_of_mem hm) hi, hnamed⟩
  | item hj _ ih =>
    obtain ⟨i, hi, hnamed⟩ := ih
    exact ⟨i, .part hj hi, hnamed⟩

theorem namesBelow_of_nameFree {j : Json} (h : j.NameFree) (property : String) :
    namesBelow property j = [] := by
  rw [List.eq_nil_iff_forall_not_mem]
  intro name hname
  obtain ⟨i, hi, hnamed⟩ := (mem_namesBelow_iff.1 hname).exists_within
  exact h i hi hnamed

/-! ### Patterns -/

/-- The name of a variable. -/
abbrev Identifier := { name : String // name ≠ "" }

/-- The key of a property in a pattern. -/
inductive PropertyKey where
  | identifier (name : String)
  /-- A key that is written as a string or number. -/
  | literal
  | computed (expression : Json)

mutual

/-- A pattern that binds names. -/
inductive BindingPattern where
  | identifier (name : Identifier)
  | object (properties : BindingProperties)
  | array (elements : BindingElements)
  /-- A pattern with a default value. -/
  | assignment (target : BindingPattern) (default : Json)
  | rest (argument : BindingPattern)

/-- What a pattern takes out of an object. -/
inductive BindingProperties where
  | nil
  | keyed (key : PropertyKey) (value : BindingPattern) (more : BindingProperties)
  | rest (argument : BindingPattern) (more : BindingProperties)

/-- What a pattern takes out of an array. -/
inductive BindingElements where
  | nil
  | hole (more : BindingElements)
  | item (element : BindingPattern) (more : BindingElements)

end

mutual

/-- The names that a pattern binds, in their order. -/
def BindingPattern.names : BindingPattern → List String
  | .identifier name => [name.1]
  | .object properties => properties.names
  | .array elements => elements.names
  | .assignment target _ => target.names
  | .rest argument => argument.names

/-- The names that are bound to what is taken out of an object. -/
def BindingProperties.names : BindingProperties → List String
  | .nil => []
  | .keyed _ value more => value.names ++ more.names
  | .rest argument more => argument.names ++ more.names

/-- The names that are bound to what is taken out of an array. -/
def BindingElements.names : BindingElements → List String
  | .nil => []
  | .hole more => more.names
  | .item element more => element.names ++ more.names

end

/-- An expression in a pattern, with the property that leads to it. -/
abbrev Aside := String × Json

/-- The names that are met in the expressions of a pattern. -/
def mentioned (asides : List Aside) : List String := asides.flatMap fun a => namesBelow a.1 a.2

theorem mentioned_append (asides more : List Aside) :
    mentioned (asides ++ more) = mentioned asides ++ mentioned more :=
  List.flatMap_append

theorem mem_mentioned_iff {name : String} {asides : List Aside} :
    name ∈ mentioned asides ↔ ∃ a ∈ asides, Mentions name a.1 a.2 := by
  simp only [mentioned, List.mem_flatMap, mem_namesBelow_iff]

theorem mentioned_of_nameFree {asides : List Aside} (h : ∀ a ∈ asides, a.2.NameFree) :
    mentioned asides = [] :=
  List.flatMap_eq_nil_iff.2 fun a ha => namesBelow_of_nameFree (h a ha) a.1

/-- The expression in a computed key. -/
def PropertyKey.asides : PropertyKey → List Aside
  | .computed expression => [("key", expression)]
  | _ => []

mutual

/-- The default values and computed keys in a pattern. -/
def BindingPattern.asides : BindingPattern → List Aside
  | .identifier _ => []
  | .object properties => properties.asides
  | .array elements => elements.asides
  | .assignment target default => target.asides ++ [("right", default)]
  | .rest argument => argument.asides

/-- The default values and computed keys for what is taken out of an object. -/
def BindingProperties.asides : BindingProperties → List Aside
  | .nil => []
  | .keyed key value more => (value.asides ++ key.asides) ++ more.asides
  | .rest argument more => argument.asides ++ more.asides

/-- The default values and computed keys for what is taken out of an array. -/
def BindingElements.asides : BindingElements → List Aside
  | .nil => []
  | .hole more => more.asides
  | .item element more => element.asides ++ more.asides

end

/-! ### The trees of patterns -/

/-- A document is a syntax node of a kind with some fields.  Its members come in any order; further
ones, such as the place of the node, hold no names. -/
def IsNode (kind : String) (fields : List (String × Json)) (j : Json) : Prop :=
  ∃ members others, j = .object members ∧ (members.map Prod.fst).Nodup ∧
    members.Perm (("type", .string kind) :: (fields ++ others)) ∧
    ∀ m ∈ others, m.1 ≠ "name" ∧ m.2.NameFree

/-- A document is the tree of a key. -/
def PropertyKey.Encodes : PropertyKey → Json → Prop
  | .identifier name, j => IsNode "Identifier" [("name", .string name)] j
  | .literal, j => IsNode "Literal" [] j
  | .computed expression, j => j = expression

mutual

/-- A document is the tree of a pattern. -/
def BindingPattern.Encodes : BindingPattern → Json → Prop
  | .identifier name, j => IsNode "Identifier" [("name", .string name.1)] j
  | .object properties, j =>
    ∃ items, properties.Encodes items ∧ IsNode "ObjectPattern" [("properties", .array items)] j
  | .array elements, j =>
    ∃ items, elements.Encodes items ∧ IsNode "ArrayPattern" [("elements", .array items)] j
  | .assignment target default, j =>
    ∃ left, target.Encodes left ∧
      IsNode "AssignmentPattern" [("left", left), ("right", default)] j
  | .rest argument, j =>
    ∃ tree, argument.Encodes tree ∧ IsNode "RestElement" [("argument", tree)] j

/-- Documents are the trees of what is taken out of an object. -/
def BindingProperties.Encodes : BindingProperties → List Json → Prop
  | .nil, items => items = []
  | .keyed key value more, items =>
    ∃ k v j later, key.Encodes k ∧ value.Encodes v ∧
      IsNode "Property" [("value", v), ("key", k)] j ∧ more.Encodes later ∧ items = j :: later
  | .rest argument more, items =>
    ∃ tree j later, argument.Encodes tree ∧ IsNode "RestElement" [("argument", tree)] j ∧
      more.Encodes later ∧ items = j :: later

/-- Documents are the trees of what is taken out of an array; a hole is `null`. -/
def BindingElements.Encodes : BindingElements → List Json → Prop
  | .nil, items => items = []
  | .hole more, items => ∃ later, more.Encodes later ∧ items = .null :: later
  | .item element more, items =>
    ∃ j later, element.Encodes j ∧ more.Encodes later ∧ items = j :: later

end

/-! ### What is collected -/

/-- What is read from a syntax node. -/
theorem IsNode.exists_members {kind : String} {fields : List (String × Json)} {j : Json}
    (h : IsNode kind fields j) :
    ∃ members : Entries Json, j = .object members ∧ members.has "type" = true ∧
      (∀ value, members.get? "name" = some value ↔ ("name", value) ∈ fields) ∧
      (∀ m ∈ fields, m ∈ members) ∧ (namesBelowMembers members).Perm (mentioned fields) := by
  obtain ⟨members, others, rfl, hnodup, hperm, hothers⟩ := h
  refine ⟨members, rfl, ?_, ?_, ?_, ?_⟩
  · rw [Entries.has_iff]
    exact List.mem_map_of_mem (hperm.mem_iff.2 List.mem_cons_self)
  · intro value
    rw [Entries.get?_eq_some_iff hnodup, hperm.mem_iff, List.mem_cons, List.mem_append]
    constructor
    · intro h
      rcases h with h | h | h
      · simp at h
      · exact h
      · exact absurd rfl (hothers _ h).1
    · intro h
      exact .inr (.inl h)
  · intro m hm
    exact hperm.mem_iff.2 (List.mem_cons_of_mem _ (List.mem_append_left _ hm))
  · have hfree : mentioned others = [] := mentioned_of_nameFree fun m hm => (hothers m hm).2
    have hnames : mentioned (("type", .string kind) :: (fields ++ others)) = mentioned fields := by
      rw [mentioned, List.flatMap_cons, ← mentioned, mentioned_append, hfree, List.append_nil]
      rfl
    rw [namesBelowMembers_eq, ← hnames]
    exact hperm.flatMap_right _

/-- A binding by a syntax node introduces the names below it. -/
theorem IsNode.boundNames_eq {kind property : String} {fields : List (String × Json)} {j : Json}
    (h : IsNode kind fields j) (hkey : property ≠ "key") :
    boundNames j = namesBelow property j := by
  obtain ⟨members, rfl, htype, -⟩ := h.exists_members
  rw [boundNames, nodeNames, namesBelow, if_pos htype, ownName, ownName, if_neg (by simp),
    if_neg (by simpa using hkey)]

/-- The names that are collected are bound names in their order, and names in expressions. -/
structure Collects (bound : List String) (asides : List Aside) (names : List String) : Prop where
  sublist : bound.Sublist names
  perm : names.Perm (bound ++ mentioned asides)

namespace Collects

variable {bound bound' names names' : List String} {asides asides' : List Aside}

theorem nil : Collects [] [] [] := ⟨.slnil, .nil⟩

theorem append (h : Collects bound asides names) (h' : Collects bound' asides' names') :
    Collects (bound ++ bound') (asides ++ asides') (names ++ names') := by
  refine ⟨h.sublist.append h'.sublist, ?_⟩
  have hperm := h.perm.append h'.perm
  rw [List.append_assoc] at hperm
  rw [mentioned_append, List.append_assoc]
  exact hperm.trans ((List.perm_append_comm_assoc _ _ _).append_left bound)

/-- Without names in the expressions, just the bound names are collected. -/
theorem eq_of_nameFree (h : Collects bound asides names) (hfree : ∀ a ∈ asides, a.2.NameFree) :
    names = bound := by
  have hperm := h.perm
  rw [mentioned_of_nameFree hfree, List.append_nil] at hperm
  exact (h.sublist.eq_of_length hperm.length_eq.symm).symm

/-- From a syntax node, the names in its first field and in the other ones are collected. -/
theorem of_isNode {kind field : String} {tree j : Json} {others : List Aside}
    (hnode : IsNode kind ((field, tree) :: others) j)
    (hname : "name" ∉ field :: others.map Prod.fst)
    (h : Collects bound asides (namesBelow field tree)) (property : String) :
    Collects bound (asides ++ others) (namesBelow property j) := by
  obtain ⟨members, rfl, htype, hown, hmem, hperm⟩ := hnode.exists_members
  have hown : ownName (some property) members = [] := by
    rw [List.eq_nil_iff_forall_not_mem]
    intro name h
    have hfield := (hown _).1 (mem_ownName_iff.1 h).2.1
    exact hname (List.mem_map_of_mem (f := Prod.fst) hfield)
  rw [namesBelow, if_pos htype, hown, List.nil_append]
  constructor
  · have hfirst : [(field, tree)].Sublist members :=
      List.singleton_sublist.2 (hmem _ List.mem_cons_self)
    have hnames := hfirst.flatMap fun m => namesBelow m.1 m.2
    rw [List.flatMap_singleton, ← namesBelowMembers_eq] at hnames
    exact h.sublist.trans hnames
  · rw [mentioned_append, ← List.append_assoc]
    exact hperm.trans (h.perm.append_right _)

end Collects

/-- From a syntax node without names in its fields, only its own name is collected. -/
theorem IsNode.namesBelow_eq_ownName {kind : String} {fields : List (String × Json)} {j : Json}
    (h : IsNode kind fields j) (hfields : mentioned fields = []) :
    ∃ members : Entries Json,
      (∀ value, members.get? "name" = some value ↔ ("name", value) ∈ fields) ∧
      ∀ property, namesBelow property j = ownName (some property) members := by
  obtain ⟨members, rfl, htype, hown, -, hperm⟩ := h.exists_members
  rw [hfields, List.perm_nil] at hperm
  refine ⟨members, hown, ?_⟩
  intro property
  rw [namesBelow, if_pos htype, hperm, List.append_nil]

theorem IsNode.namesBelow_key {kind : String} {fields : List (String × Json)} {j : Json}
    (h : IsNode kind fields j) (hfields : mentioned fields = []) : namesBelow "key" j = [] := by
  obtain ⟨members, -, hnames⟩ := h.namesBelow_eq_ownName hfields
  rw [hnames, ownName, if_pos rfl]

/-- From a key, the names in a computed key are collected. -/
theorem PropertyKey.mentioned_eq {key : PropertyKey} {j : Json} (h : key.Encodes j) :
    mentioned [("key", j)] = mentioned key.asides := by
  cases key with
  | identifier name =>
    rw [mentioned, List.flatMap_singleton, IsNode.namesBelow_key h rfl]
    rfl
  | literal =>
    rw [mentioned, List.flatMap_singleton, IsNode.namesBelow_key h rfl]
    rfl
  | computed expression =>
    obtain rfl := h
    rfl

theorem BindingPattern.exists_isNode {p : BindingPattern} {j : Json} (h : p.Encodes j) :
    ∃ kind fields, IsNode kind fields j := by
  cases p with
  | identifier name => exact ⟨_, _, h⟩
  | _ =>
    obtain ⟨_, -, h⟩ := h
    exact ⟨_, _, h⟩

mutual

/-- **What is collected from a pattern**: its names, and those in its expressions. -/
theorem BindingPattern.collects (p : BindingPattern) {j : Json} {property : String}
    (h : p.Encodes j) (hkey : property ≠ "key") :
    Collects p.names p.asides (namesBelow property j) := by
  cases p with
  | identifier name =>
    obtain ⟨members, hown, hnames⟩ := IsNode.namesBelow_eq_ownName h rfl
    have hname : ownName (some property) members = [name.1] := by
      rw [ownName, if_neg (by simpa using hkey), (hown _).2 List.mem_cons_self]
      simp [name.2]
    rw [hnames, hname]
    exact ⟨.refl _, .refl _⟩
  | object properties =>
    obtain ⟨items, hitems, hnode⟩ := h
    have hfield : Collects properties.names properties.asides
        (namesBelow "properties" (.array items)) := properties.collects hitems
    have hall := hfield.of_isNode hnode (by simp) property
    rwa [List.append_nil] at hall
  | array elements =>
    obtain ⟨items, hitems, hnode⟩ := h
    have hfield : Collects elements.names elements.asides
        (namesBelow "elements" (.array items)) := elements.collects hitems
    have hall := hfield.of_isNode hnode (by simp) property
    rwa [List.append_nil] at hall
  | assignment target default =>
    obtain ⟨left, hleft, hnode⟩ := h
    exact (target.collects hleft (by simp)).of_isNode hnode (by simp) property
  | rest argument =>
    obtain ⟨tree, htree, hnode⟩ := h
    have hall := (argument.collects htree (by simp)).of_isNode hnode (by simp) property
    rwa [List.append_nil] at hall

theorem BindingProperties.collects (properties : BindingProperties) {items : List Json}
    (h : properties.Encodes items) :
    Collects properties.names properties.asides (namesBelowItems "properties" items) := by
  cases properties with
  | nil =>
    obtain rfl := h
    exact .nil
  | keyed key value more =>
    obtain ⟨k, v, j, later, hk, hv, hnode, hlater, rfl⟩ := h
    have hall := (value.collects hv (by simp)).of_isNode hnode (by simp) "properties"
    have hfirst :
        Collects value.names (value.asides ++ key.asides) (namesBelow "properties" j) := by
      refine ⟨hall.sublist, ?_⟩
      rw [mentioned_append, ← PropertyKey.mentioned_eq hk, ← mentioned_append]
      exact hall.perm
    exact hfirst.append (more.collects hlater)
  | rest argument more =>
    obtain ⟨tree, j, later, htree, hnode, hlater, rfl⟩ := h
    have hall := (argument.collects htree (by simp)).of_isNode hnode (by simp) "properties"
    rw [List.append_nil] at hall
    exact hall.append (more.collects hlater)

theorem BindingElements.collects (elements : BindingElements) {items : List Json}
    (h : elements.Encodes items) :
    Collects elements.names elements.asides (namesBelowItems "elements" items) := by
  cases elements with
  | nil =>
    obtain rfl := h
    exact .nil
  | hole more =>
    obtain ⟨later, hlater, rfl⟩ := h
    exact Collects.nil.append (more.collects hlater)
  | item element more =>
    obtain ⟨j, later, hj, hlater, rfl⟩ := h
    exact (element.collects hj (by simp)).append (more.collects hlater)

end

theorem BindingPattern.collects_boundNames {p : BindingPattern} {j : Json} (h : p.Encodes j) :
    Collects p.names p.asides (boundNames j) := by
  obtain ⟨kind, fields, hnode⟩ := BindingPattern.exists_isNode h
  have hkey : "value" ≠ "key" := by decide
  rw [hnode.boundNames_eq hkey]
  exact p.collects h hkey

/-- **The names that a binding by a pattern introduces.**  The names that the pattern binds are
among them, in their order; the others are those in its default values and computed keys.  If
there are no names in these, it is just the names that the pattern binds. -/
theorem BindingPattern.boundNames_of_encodes {p : BindingPattern} {j : Json} (h : p.Encodes j) :
    p.names.Sublist (boundNames j) ∧
    (boundNames j).Perm (p.names ++ mentioned p.asides) ∧
    ((∀ a ∈ p.asides, a.2.NameFree) → boundNames j = p.names) := by
  have hcollects := BindingPattern.collects_boundNames h
  exact ⟨hcollects.sublist, hcollects.perm, hcollects.eq_of_nameFree⟩

/-! ### A pattern -/

theorem Json.nameFree_of_depth {j : Json} (h : j.depth = 0) : j.NameFree := by
  rw [Json.nameFree_iff]
  cases j with
  | array items => cases h
  | object members => cases h
  | _ => simp [Json.IsNamed, Json.parts]

/-- A syntax node with just its kind and fields. -/
def plainNode (kind : String) (fields : List (String × Json)) : Json :=
  .object (("type", .string kind) :: fields)

theorem isNode_plainNode {kind : String} {fields : List (String × Json)}
    (h : ("type" :: fields.map Prod.fst).Nodup) : IsNode kind fields (plainNode kind fields) :=
  ⟨_, [], rfl, h, by rw [List.append_nil], by simp⟩

/-- The tree of a name. -/
def nameTree (name : String) : Json := plainNode "Identifier" [("name", .string name)]

theorem isNode_nameTree (name : String) :
    IsNode "Identifier" [("name", .string name)] (nameTree name) :=
  isNode_plainNode (by simp)

/-- The number one as an expression. -/
def oneTree : Json := plainNode "Literal" [("value", .ofNat 1)]

theorem nameFree_oneTree : oneTree.NameFree := by
  rw [Json.nameFree_iff]
  constructor
  · rintro ⟨members, name, hobject, -, hname, -⟩
    obtain rfl := Json.object.inj hobject
    rw [Entries.get?_eq_some_iff (by decide)] at hname
    simp at hname
  · intro k hk
    have hleaf : k = .string "Literal" ∨ k = .ofNat 1 := by
      simpa [oneTree, plainNode, Json.parts] using hk
    rcases hleaf with rfl | rfl
    · exact Json.nameFree_of_depth rfl
    · exact Json.nameFree_of_depth rfl

/-- The name `a`. -/
def nameA : Identifier := ⟨"a", by decide⟩

/-- The name `b`. -/
def nameB : Identifier := ⟨"b", by decide⟩

/-- An object pattern, `id: [, a = 1], ...b`. -/
def nestedPattern : BindingPattern :=
  .object (.keyed (.identifier "id")
    (.array (.hole (.item (.assignment (.identifier nameA) oneTree) .nil)))
    (.rest (.identifier nameB) .nil))

/-- The tree of the pattern, with its members in another order. -/
def nestedPatternTree : Json :=
  .object [("properties", .array
      [.object [("value", plainNode "ArrayPattern" [("elements", .array [.null,
          .object [("right", oneTree), ("left", nameTree "a"),
            ("type", .string "AssignmentPattern")]])]),
        ("type", .string "Property"), ("key", nameTree "id")],
      plainNode "RestElement" [("argument", nameTree "b")]]),
    ("type", .string "ObjectPattern"), ("start", .ofNat 7)]

/-- Neither the key nor the default value is among the names. -/
theorem BindingPattern.boundNames_of_nestedPattern :
    nestedPattern.Encodes nestedPatternTree ∧ (∀ a ∈ nestedPattern.asides, a.2.NameFree) ∧
      boundNames nestedPatternTree = ["a", "b"] := by
  have hassignment : IsNode "AssignmentPattern" [("left", nameTree "a"), ("right", oneTree)]
      (.object [("right", oneTree), ("left", nameTree "a"),
        ("type", .string "AssignmentPattern")]) :=
    ⟨_, [], rfl, by decide, List.reverse_perm [_, _, _], by simp⟩
  have hencodes : nestedPattern.Encodes nestedPatternTree := by
    refine ⟨_, ?_, _, [("start", .ofNat 7)], rfl, by decide, .swap _ _ _, ?_⟩
    · refine ⟨nameTree "id", _, _, _, isNode_nameTree "id", ?_,
        ⟨_, [], rfl, by decide, .swap _ _ _, by simp⟩,
        ⟨_, _, _, isNode_nameTree "b", isNode_plainNode (by decide), rfl, rfl⟩, rfl⟩
      exact ⟨_, ⟨_, ⟨_, _, ⟨_, isNode_nameTree "a", hassignment⟩, rfl, rfl⟩, rfl⟩,
        isNode_plainNode (by decide)⟩
    · intro m hm
      obtain rfl := List.mem_singleton.1 hm
      exact ⟨by decide, Json.nameFree_of_depth rfl⟩
  have hfree : ∀ a ∈ nestedPattern.asides, a.2.NameFree := by
    intro a ha
    obtain rfl := List.mem_singleton.1 ha
    exact nameFree_oneTree
  exact ⟨hencodes, hfree, (BindingPattern.boundNames_of_encodes hencodes).2.2 hfree⟩

end ComponentLint
