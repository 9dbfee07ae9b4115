import ComponentLint.Compiler.Basic
import ComponentLint.Template.Script

/-!
# The blocks of a component

A component has a block for its module script, one for its instance script and one for its
template, as far as it has these parts.  Around the fragment to be linted each block declares and
uses the variables of the component, so that the linter does not complain about code it cannot
see.

## Main definitions

* `declare` — the text that declares a variable.
* `usageGroup` — the text that uses and assigns variables.
* `modulePieces?`, `instancePieces?`, `templatePieces?` — the pieces of the blocks.
* `componentBlocks` — the blocks of a component, with their names.
-/

namespace ComponentLint

/-- The text that declares a variable.  With types, the subscription to a store is declared with
the type of what the store hands out. -/
def declare (typescript : Bool) (v : Variable) : Text :=
  match v.name.toList with
  | '$' :: store =>
    if typescript then
      "declare let ".toList ++ v.name.toList ++ ":Parameters<Parameters<typeof ".toList ++ store
        ++ ".subscribe>[0]>[0]; // eslint-disable-line\n".toList
    else "let ".toList ++ v.name.toList ++ [';']
  | name => "let ".toList ++ name ++ [';']

/-- The text that uses the variables that are used in the component, and assigns those that are
assigned or exported. -/
def usageGroup (vars : List Variable) : Text :=
  let used := (vars.filter fun v => v.referenced || v.isSubscription).map (·.name)
  let assigned :=
    (vars.filter fun v => v.reassigned || v.exportName.isSome).map (·.name ++ "=0")
  ("\x7b" ++ ",".intercalate used ++ ";" ++ ",".intercalate assigned ++ "\x7d").toList

/-- The text that uses the variables that are used in a script. -/
def scriptUsageGroup (vars : List Variable) : Text :=
  let used :=
    (vars.filter fun v => v.referencedFromScript || v.isSubscription).map (·.name)
  ("\x7b" ++ ",".intercalate used ++ "\x7d").toList

/-- A verbatim copy of a script body, if there is one. -/
def copyOf (script : Option Span) : List Piece := script.toList.map .copy

/-- The pieces of the block for the module script: the script, then the instance script, then the
uses of variables. -/
def modulePieces? (c : Component) (vars : List Variable) : Option (List Piece) :=
  c.moduleScript.map fun body =>
    [.fragment body {}] ++ copyOf c.instanceScript ++ [.scaffold (usageGroup vars)]

/-- The pieces of the block for the instance script: the variables from elsewhere, the module
script if types matter, the script, then the uses of variables. -/
def instancePieces? (typescript : Bool) (c : Component) (vars : List Variable) :
    Option (List Piece) :=
  c.instanceScript.map fun body =>
    (vars.filter fun v => v.injected || (!typescript && v.inModule)).map
        (Piece.scaffold ∘ declare typescript)
      ++ (if typescript then copyOf c.moduleScript else [])
      ++ [.fragment body {}, .scaffold (usageGroup vars)]

/-- The pieces before the template: the variables, or with types both scripts and the variables
from elsewhere. -/
def templateLead (typescript : Bool) (c : Component) (vars : List Variable) : List Piece :=
  if typescript then
    copyOf c.moduleScript
      ++ (if c.instanceScript.isSome || !vars.isEmpty then [.scaffold ['\n']] else [])
      ++ (vars.filter (·.injected)).map (Piece.scaffold ∘ declare true)
      ++ copyOf c.instanceScript
  else vars.map (Piece.scaffold ∘ declare false)

/-- The pieces of the block for the template. -/
def templatePieces? (typescript : Bool) (document : Text) (c : Component)
    (vars : List Variable) : Option (List Piece) :=
  c.template.map fun root =>
    templateLead typescript c vars ++ root.pieces document
      ++ [.scaffold (scriptUsageGroup vars)]

/-- The blocks of a component, with their names.  The first range that the document does not have
is named. -/
def componentBlocks (typescript : Bool) (extension : String) (document : Text) (c : Component)
    (vars : List Variable) : Except Span (List (String × Block)) :=
  let parts : List (String × Option (List Piece)) :=
    [("module.", modulePieces? c vars),
      ("instance.", instancePieces? typescript c vars),
      ("template.", templatePieces? typescript document c vars)]
  (parts.filterMap fun part => part.2.map (part.1, ·)).mapM fun part => do
    return (part.1 ++ extension, ← Block.ofPieces document part.2)

end ComponentLint
