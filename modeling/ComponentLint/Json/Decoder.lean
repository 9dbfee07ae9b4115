import ComponentLint.Json.Parser

/-!
# Decoding records

A decoder takes a document for a value of some type.  Records are written as objects; unknown
members are skipped, whatever they hold, and a known member must not be repeated.  A record may
also be written as the array of its fields in their order, with fields missing only at the end.

## Main definitions

* `Json.Decoder α` — a decoder for values of type `α`.
* `Decoder.row` — the fields of a record.
* `Row.required`, `Row.optional`, `Row.orElse` — the value of a field.
* `Decoder.captured d` — decodes with `d` what is readable as a whole.
* `Decoder.ofText d t` — decodes the document written in a text.
-/

namespace ComponentLint.Json

/-- Takes a document, within a nesting, for a value of type `α`. -/
abbrev Decoder (α : Type) := Nesting → Json → Option α

namespace Decoder

variable {α β : Type}

/-- A string. -/
def string : Decoder String
  | _, .string s => some s
  | _, _ => none

/-- A string, as a text. -/
def text : Decoder (List Char)
  | _, .string s => some s.toList
  | _, _ => none

/-- A truth value. -/
def bool : Decoder Bool
  | _, .bool b => some b
  | _, _ => none

/-- A whole number from zero up to the bound, which is excluded. -/
def below (bound : Nat) : Decoder Nat
  | _, .number (.whole n) => if 0 ≤ n ∧ n < bound then some n.toNat else none
  | _, _ => none

/-- A count or offset: a whole number of 32 bits. -/
def word : Decoder Nat := below 0x100000000

/-- A free-form value. -/
def value : Decoder Json := Json.value?

/-- `null`, or what `d` takes. -/
def nullable (d : Decoder α) : Decoder (Option α)
  | _, .null => some none
  | n, j => (d n j).map some

/-- An array. -/
def list (d : Decoder α) : Decoder (List α)
  | n, .array items => do
    let inner ← n.enter
    items.mapM (d inner)
  | _, _ => none

/-- An object that maps names to values of one type. -/
def entries (d : Decoder α) : Decoder (Entries α)
  | n, .object members => do
    let inner ← n.enter
    return Entries.ofList (← members.mapM fun member => (d inner member.2).map (member.1, ·))
  | _, _ => none

/-- One of several words: a string, or an object whose only member has that name and is `null`. -/
def choice (choose : String → Option α) : Decoder α
  | _, .string s => choose s
  | n, .object [(name, .null)] => n.enter.bind fun _ => choose name
  | _, _ => none

/-- Decodes what is readable as a whole; inside, nesting has no bound. -/
def captured (d : Decoder α) : Decoder α := fun n j =>
  if (j.value? n).isSome then d none j else none

/-- Tries one decoder, then another. -/
def orElse (first : Decoder α) (second : Decoder α) : Decoder α := fun n j =>
  (first n j).or (second n j)

/-- Changes the decoded value. -/
def map (f : α → β) (d : Decoder α) : Decoder β := fun n j => (d n j).map f

/-- Decodes the document written in a text. -/
def ofText (d : Decoder α) (t : Text) : Option α :=
  (parse? t).bind (d Nesting.ofDocument)

end Decoder

/-! ### Records -/

/-- The fields of a record that were written. -/
structure Row where
  /-- The nesting left for the fields. -/
  inner : Nesting
  /-- The fields under their names. -/
  cells : Entries Json

/-- A field of a record: its name, and another name it may go by. -/
structure Field where
  name : String
  alternative : Option String := none

/-- Whether a member name is the name of a field. -/
def Field.goesBy (f : Field) (name : String) : Bool :=
  f.name == name || f.alternative == some name

namespace Decoder

/-- The fields of a record written as an object. -/
def memberRow (fields : List Field) : Decoder Row
  | n, .object members => do
    let inner ← n.enter
    let cells := members.filterMap fun member =>
      (fields.find? (·.goesBy member.1)).map fun field => (field.name, member.2)
    if (cells.map Prod.fst).Nodup then some ⟨inner, cells⟩ else none
  | _, _ => none

/-- The fields of a record written as an object, or as an array in the order of the fields. -/
def row (fields : List Field) : Decoder Row
  | n, .array items => do
    let inner ← n.enter
    if items.length ≤ fields.length then
      some ⟨inner, (fields.map Field.name).zip items⟩
    else none
  | n, j => memberRow fields n j

end Decoder

namespace Row

variable {α : Type}

/-- A field that must be there. -/
def required (r : Row) (name : String) (d : Decoder α) : Option α :=
  (r.cells.get? name).bind (d r.inner)

/-- A field that may be missing. -/
def orElse (r : Row) (name : String) (default : α) (d : Decoder α) : Option α :=
  match r.cells.get? name with
  | none => some default
  | some j => d r.inner j

/-- A field that may be missing or `null`. -/
def optional (r : Row) (name : String) (d : Decoder α) : Option (Option α) :=
  r.orElse name none (Decoder.nullable d)

end Row

/-! ### Encoding -/

/-- A member that is left out when there is no value. -/
def memberIfSome {α : Type} (name : String) (encode : α → Json) (value : Option α) :
    List (String × Json) :=
  value.toList.map fun a => (name, encode a)

/-- `null` when there is no value. -/
def orNull {α : Type} (encode : α → Json) (value : Option α) : Json :=
  value.elim .null encode

/-- A string. -/
def ofText (t : List Char) : Json := .string (String.ofList t)

end ComponentLint.Json
