import ComponentLint.Markup.Attributes
import ComponentLint.Markup.Element
import ComponentLint.Text.Lines

/-!
# Blanking elements

Parts of a document that the compiler must not see are replaced by blanks of the same length, so
that every offset stays valid.

## Main definitions

* `Markup.blankText t` — `t` with blanks for every visible character.
* `Markup.blankStyles filter t` — `t` with the `style` elements blanked that the filter picks.
* `Markup.clearScripts t` — `t` with the bodies of the `script` elements blanked.
-/

namespace ComponentLint.Markup

open Text

/-- As many blanks as the character has bytes; whitespace stays as it is. -/
def blankChar (c : Char) : Text := if isSpace c then [c] else spaces c.utf8Size

/-- A text with blanks for every visible character. -/
def blankText (t : Text) : Text := t.flatMap blankChar

/-- The elements with styles. -/
def styleName : Text := ['s', 't', 'y', 'l', 'e']

/-- The elements with scripts. -/
def scriptName : Text := ['s', 'c', 'r', 'i', 'p', 't']

/-- A stretch, blanked if it is an element whose attributes the filter picks. -/
def blankStyle (filter : Attributes → Bool) : Stretch → Text
  | .plain c => [c]
  | .element e => if filter (Attributes.parse e.attributes) then blankText e.text else e.text

/-- Blanks the `style` elements whose attributes the filter picks. -/
def blankStyles (filter : Attributes → Bool) (t : Text) : Text :=
  (scan styleName t).flatMap (blankStyle filter)

/-- A blank line of the same length.  The line feed stays, and if there is room before it an empty
comment keeps the line from looking blank. -/
def blankLine (line : Text) : Text :=
  if line.getLast? = some '\n' then
    let width := size line - 1
    if 4 ≤ width then spaces (width - 4) ++ ['/', '*', '*', '/', '\n'] else spaces width ++ ['\n']
  else spaces (size line)

/-- Blanks the body of a script, line by line. -/
def blankBody (body : Text) : Text := (lines body).flatMap blankLine

/-- A stretch, with its body blanked if it is an element. -/
def clearScript : Stretch → Text
  | .plain c => [c]
  | .element e => e.opening ++ blankBody e.body ++ e.closing

/-- Blanks the bodies of the `script` elements. -/
def clearScripts (t : Text) : Text := (scan scriptName t).flatMap clearScript

end ComponentLint.Markup
