import ComponentLint.Block.Basic
import ComponentLint.Text.Whitespace

/-!
# Which messages are kept

Some rules speak about the scaffolding of a block and not about the user's code: about labels that
mark reactive statements, about line ends between fragments, about expressions that are not
indented like a script.  Each such rule has its own condition under which a message is kept.

## Main definitions

* `nameAtStart? t` — the name a text starts with.
* `Placement.keeps p b names m` — whether a message on a block is kept.
-/

namespace ComponentLint

/-- Whether a character ends a name: whitespace, and ASCII punctuation other than `$` and `_`. -/
def endsIdentifier (c : Char) : Bool :=
  Text.isSpace c || (Text.isPunctuation c && c != '$' && c != '_')

/-- The name a text starts with. -/
def nameAtStart? (t : Text) : Option Text :=
  match t.takeWhile (!endsIdentifier ·) with
  | [] => none
  | name => some name

/-- The type names that have a meaning of their own in a component. -/
def componentTypes : List String := ["$$Props", "$$Slots", "$$Events"]

/-- Whether a message on a line of the fragment is kept.  `names` are the variables of the
component. -/
def Placement.keeps (p : Placement) (b : Block) (names : List String) (m : Message) : Bool :=
  let referenced := (b.referenced? m).map String.ofList
  let identifier := ((b.referenced? m).bind nameAtStart?).map String.ofList
  match m.rule with
  | "eol-last" => false
  | "indent" | "@typescript-eslint/indent" => !p.flags.template
  | "linebreak-style" => m.line != p.lastLine
  | "no-labels" => identifier != some "$"
  | "no-restricted-syntax" => m.nodeType != some "LabeledStatement" || identifier != some "$"
  | "no-self-assign" => !identifier.any names.contains
  | "no-undef" => referenced != some "$$Generic"
  | "no-unused-labels" => referenced != some "$"
  | "no-unused-vars" | "@typescript-eslint/no-unused-vars" =>
    !referenced.any componentTypes.contains
  | "quotes" | "@typescript-eslint/quotes" => !p.flags.quoted
  | _ => true

end ComponentLint
