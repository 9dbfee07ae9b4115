import ComponentLint.Json.Token

/-!
# Reading a JSON text

The tokens of a text are put together with a stack of the arrays and objects that are open.

## Main definitions

* `Json.Frame` — an array or object that is open.
* `Json.Builder`, `Json.Builder.step` — the state of building and its step on a token.
* `Json.parse? t` — the document written in a text.
-/

namespace ComponentLint.Json

/-- An array or object that is open, with what it holds so far, the last part first. -/
inductive Frame where
  | array (items : List Json)
  /-- An object and the name whose value is being read. -/
  | object (members : List (Option String × Json)) (name : Option String)

/-- What may come next, inside the open frames. -/
inductive Builder where
  /-- A value. -/
  | value (stack : List Frame)
  /-- The first item of an array, or its end. -/
  | firstItem (stack : List Frame)
  /-- A comma or the end, in an array. -/
  | afterItem (items : List Json) (stack : List Frame)
  /-- The first name of an object, or its end. -/
  | firstName (stack : List Frame)
  /-- A name. -/
  | nextName (members : List (Option String × Json)) (stack : List Frame)
  /-- A colon. -/
  | colon (name : Option String) (members : List (Option String × Json)) (stack : List Frame)
  /-- A comma or the end, in an object. -/
  | afterMember (members : List (Option String × Json)) (stack : List Frame)
  /-- Nothing: the document is complete. -/
  | done (j : Json)

/-- The object with the given members.  A name without content makes it unreadable. -/
def ofMembers (members : List (Option String × Json)) : Json :=
  match members.mapM fun member => member.1.map (·, member.2) with
  | some members => .object members
  | none => .unreadable

namespace Builder

/-- Puts a finished value into the innermost open frame. -/
def finish (j : Json) : List Frame → Builder
  | [] => .done j
  | .array items :: stack => .afterItem (j :: items) stack
  | .object members name :: stack => .afterMember ((name, j) :: members) stack

/-- Begins a value with a token. -/
def begin (stack : List Frame) : Token → Option Builder
  | .openBracket => some (.firstItem stack)
  | .openBrace => some (.firstName stack)
  | .scalar j => some (finish j stack)
  | .literal content =>
    some (finish (content.elim .unreadable .string) stack)
  | _ => none

/-- Takes one token. -/
def step : Builder → Token → Option Builder
  | .value stack, t => begin stack t
  | .firstItem stack, .closeBracket => some (finish (.array []) stack)
  | .firstItem stack, t => begin (.array [] :: stack) t
  | .afterItem items stack, .comma => some (.value (.array items :: stack))
  | .afterItem items stack, .closeBracket => some (finish (.array items.reverse) stack)
  | .firstName stack, .closeBrace => some (finish (.object []) stack)
  | .firstName stack, .literal name => some (.colon name [] stack)
  | .nextName members stack, .literal name => some (.colon name members stack)
  | .colon name members stack, .colon => some (.value (.object members name :: stack))
  | .afterMember members stack, .comma => some (.nextName members stack)
  | .afterMember members stack, .closeBrace =>
    some (finish (ofMembers members.reverse) stack)
  | _, _ => none

end Builder

/-- The document written in a text. -/
def parse? (t : Text) : Option Json := do
  let tokens ← tokens? t
  match ← tokens.foldlM Builder.step (.value []) with
  | .done j => some j
  | _ => none

end ComponentLint.Json
