import ComponentLint.Entries
import ComponentLint.Text.Whitespace

/-!
# Attributes of a tag

Attributes are separated by whitespace and written `name`, `name=value`, or with the value between
quotes.  Quotes do not keep whitespace together, and the closing quote is not compared with the
opening one.  Of several attributes of one name the last one counts.

## Main definitions

* `Markup.Attributes` — the attributes of a tag; a bare attribute has no value.
* `Markup.Attributes.parse t` — the attributes written in `t`.
* `Markup.Attributes.hasLanguage` — whether a language other than the default is declared.
-/

namespace ComponentLint.Markup

/-- The attributes of a tag.  A bare attribute has no value. -/
abbrev Attributes := Entries (Option String)

namespace Attributes

/-- The value of an attribute as it was written: a leading quote is dropped together with the last
byte, and if a character does not end there, nothing is left. -/
def unquote (value : Text) : Text :=
  match value with
  | [] => []
  | c :: _ =>
    if c = '\x22' ∨ c = '\x27' then (Text.slice? value 1 (Text.size value - 1)).getD []
    else value

/-- The name and value of one attribute. -/
def parseOne (word : Text) : String × Option String :=
  let name := word.takeWhile (· ≠ '=')
  match word.dropWhile (· ≠ '=') with
  | [] => (String.ofList name, none)
  | _ :: value => (String.ofList name, some (String.ofList (unquote value)))

/-- The attributes written in a text. -/
def parse (t : Text) : Attributes := Entries.ofList ((Text.words t).map parseOne)

/-- Whether an attribute is there, bare or with a value that is not empty. -/
def declares (a : Attributes) (name : String) : Bool :=
  match a.get? name with
  | none => false
  | some none => true
  | some (some value) => !value.isEmpty

/-- Whether a language is declared, by `type` or by `lang`. -/
def hasLanguage (a : Attributes) : Bool := a.declares "type" || a.declares "lang"

end Attributes

end ComponentLint.Markup
