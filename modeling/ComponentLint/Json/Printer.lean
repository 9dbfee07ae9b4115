import ComponentLint.Json.Basic

/-!
# Writing JSON

## Main definitions

* `Number.render n` — a number.
* `Json.quote s` — a string literal.
* `Json.render j` — a document on one line, without blanks.
* `Json.pretty indent j` — a document with one part per line, indented by two spaces a level.
-/

namespace ComponentLint

/-- A fraction is written with a point while the point stands within sixteen digits of the first
digit, or at most four zeros before it, and with an exponent otherwise. -/
def Number.render : Number → String
  | .whole n => toString n
  | .decimal negative digits exponent =>
    let ds := Nat.toDigits 10 digits
    let point : Int := ds.length + exponent
    let zeros (n : Int) : List Char := List.replicate n.toNat '0'
    let body :=
      if 0 ≤ exponent ∧ point ≤ 16 then ds ++ zeros exponent ++ ['.', '0']
      else if 0 < point ∧ point ≤ 16 then ds.take point.toNat ++ '.' :: ds.drop point.toNat
      else if -5 < point ∧ point ≤ 0 then '0' :: '.' :: zeros (-point) ++ ds
      else
        let mantissa := if ds.length = 1 then ds else ds.take 1 ++ '.' :: ds.drop 1
        mantissa ++ 'e' :: (toString (point - 1)).toList
    (if negative then "-" else "") ++ String.ofList body

namespace Json

/-- What stands for a character in a string literal. -/
def quoteChar (c : Char) : List Char :=
  match c with
  | '\x22' => ['\\', '\x22']
  | '\\' => ['\\', '\\']
  | '\x08' => ['\\', 'b']
  | '\x0c' => ['\\', 'f']
  | '\n' => ['\\', 'n']
  | '\r' => ['\\', 'r']
  | '\t' => ['\\', 't']
  | c =>
    if c.toNat < 0x20 then
      ['\\', 'u', '0', '0', Nat.digitChar (c.toNat / 16), Nat.digitChar (c.toNat % 16)]
    else [c]

/-- A string literal. -/
def quote (s : String) : String :=
  "\x22" ++ String.ofList (s.toList.flatMap quoteChar) ++ "\x22"

/-! ### On one line -/

mutual

/-- A document on one line. -/
def render : Json → String
  | .null => "null"
  | .bool b => if b then "true" else "false"
  | .number n => n.render
  | .string s => quote s
  | .array items => "[" ++ ",".intercalate (renderItems items) ++ "]"
  | .object members => "\x7b" ++ ",".intercalate (renderMembers members) ++ "\x7d"
  | .unreadable => "null"

/-- Each item on one line. -/
def renderItems : List Json → List String
  | [] => []
  | j :: rest => render j :: renderItems rest

/-- Each member on one line. -/
def renderMembers : List (String × Json) → List String
  | [] => []
  | (name, j) :: rest => (quote name ++ ":" ++ render j) :: renderMembers rest

end

/-! ### Indented -/

/-- The parts of an array or object, one per line between two brackets. -/
def bracketed (left right indent : String) (parts : List String) : String :=
  if parts.isEmpty then left ++ right
  else
    left ++ "\n" ++ ",\n".intercalate (parts.map (indent ++ "  " ++ ·)) ++ "\n" ++ indent ++ right

mutual

/-- A document with one part per line, inside the given indentation. -/
def pretty (indent : String) : Json → String
  | .array items => bracketed "[" "]" indent (prettyItems (indent ++ "  ") items)
  | .object members =>
    bracketed "\x7b" "\x7d" indent (prettyMembers (indent ++ "  ") members)
  | .null => render .null
  | .bool b => render (.bool b)
  | .number n => render (.number n)
  | .string s => render (.string s)
  | .unreadable => render .unreadable

/-- Each item of an array, indented. -/
def prettyItems (indent : String) : List Json → List String
  | [] => []
  | j :: rest => pretty indent j :: prettyItems indent rest

/-- Each member of an object, indented. -/
def prettyMembers (indent : String) : List (String × Json) → List String
  | [] => []
  | (name, j) :: rest => (quote name ++ ": " ++ pretty indent j) :: prettyMembers indent rest

end

end Json

end ComponentLint
