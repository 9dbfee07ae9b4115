import ComponentLint.Template.Node

/-!
# The names a node binds

A binding is a name or a pattern of the script language, given as its syntax tree.  A syntax node
is an object with a `type`; the names below it are collected in the order of its members, except
for those that are reached as a `key`, so that `a: b` binds `b` only.

## Main definitions

* `boundNames binding` — the names a binding introduces.
* `Expression.boundNames e` — the names of an expression that is used as a pattern.
* `Node.declaredNames parent node` — the names a template node declares for what is below it.
-/

namespace ComponentLint

/-- The name of a syntax node, unless the node was reached as a `key`. -/
def ownName (property : Option String) (members : Entries Json) : List String :=
  if property = some "key" then []
  else
    match members.get? "name" with
    | some (.string name) => if name.isEmpty then [] else [name]
    | _ => []

mutual

/-- The names below a value that was reached through a property. -/
def namesBelow (property : String) : Json → List String
  | .array items => namesBelowItems property items
  | .object members =>
    if Entries.has members "type" then
      ownName (some property) members ++ namesBelowMembers members
    else []
  | _ => []

/-- The names below the items of an array, reached through the property of the array. -/
def namesBelowItems (property : String) : List Json → List String
  | [] => []
  | j :: rest => namesBelow property j ++ namesBelowItems property rest

/-- The names below the members of a syntax node. -/
def namesBelowMembers : List (String × Json) → List String
  | [] => []
  | (name, j) :: rest => namesBelow name j ++ namesBelowMembers rest

end

/-- The names of a syntax node and of everything below it. -/
def nodeNames (members : Entries Json) : List String :=
  ownName none members ++ namesBelowMembers members

/-- The names a binding introduces: a string is a name, an object is a syntax node. -/
def boundNames : Json → List String
  | .string name => [name]
  | .object members => nodeNames members
  | _ => []

/-- The names of an expression that is used as a pattern. -/
def Expression.boundNames (e : Expression) : List String := nodeNames e.syntaxNode

namespace Node

/-- The names a `let:` directive declares: those of its pattern, or else its own name. -/
def directiveNames (directive : Node) : List String :=
  match directive.expression with
  | some e => e.boundNames
  | none => directive.name.toList

/-- The names a constant tag declares. -/
def constantNames (tag : Node) : List String :=
  ((tag.expression.bind Expression.left?).map ComponentLint.boundNames).getD []

/-- The names of a binding that may be missing. -/
def optionalNames (binding : Option Json) : List String :=
  (binding.map ComponentLint.boundNames).getD []

/-- The names a node declares for what is below it.  A branch of an `await` block takes its names
from the block, and an element those of its `let:` directives; the constants of the children come
last. -/
def declaredNames (parent : Option Node) (n : Node) : List String :=
  optionalNames n.context
    ++ (match n.kind with
      | .eachBlock => optionalNames n.index
      | .thenBlock => optionalNames (parent.bind pattern?)
      | .catchBlock => optionalNames (parent.bind error)
      | .element | .inlineComponent | .slotTemplate =>
        (n.attributes.filter (·.kind = .letDirective)).flatMap directiveNames
      | _ => [])
    ++ (n.children.filter (·.kind = .constTag)).flatMap constantNames

end Node

end ComponentLint
