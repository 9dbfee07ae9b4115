import ComponentLint.Entries

/-!
# JSON values

The documents that the compiler, the transpiler and the linter exchange.  A document is kept as
it was written, repeated names included; what a repeated name means is up to the one who reads
the value.

## Main definitions

* `Number` — a whole number, or a decimal fraction.
* `Json` — a JSON document.
* `Nesting` — how many more arrays and objects may be opened.
* `Json.value? n j` — the document `j` taken as a free-form value.
* `Json.depth j` — how deep `j` is nested.
-/

namespace ComponentLint

/-- A number of a document. -/
inductive Number where
  /-- A whole number written without fraction or exponent, within 64 bits. -/
  | whole (value : Int)
  /-- Any other number: a double, as the shortest decimal `digits * 10 ^ exponent` with its sign. -/
  | decimal (negative : Bool) (digits : Nat) (exponent : Int)
  deriving DecidableEq, Repr

/-- A JSON document. -/
inductive Json where
  | null
  | bool (b : Bool)
  | number (n : Number)
  | string (s : String)
  | array (items : List Json)
  | object (members : List (String × Json))
  /-- A well-formed part that denotes no value: a number out of range, or a string with half of a
  surrogate pair.  It may stand only where it is skipped. -/
  | unreadable

/-- How many more arrays and objects may be opened; `none` stands for any number of them. -/
abbrev Nesting := Option Nat

/-- The nesting allowed in a document that is read from a text. -/
def Nesting.ofDocument : Nesting := some 127

/-- The nesting left inside an array or object, if one may be opened. -/
def Nesting.enter : Nesting → Option Nesting
  | none => some none
  | some 0 => none
  | some (n + 1) => some (some n)

namespace Json

/-! ### Free-form values

Every part of a free-form value has to be readable, and of the values under one name in an object
the last one counts, at the place of the first. -/

mutual

/-- A document taken as a free-form value. -/
def value? (nesting : Nesting) : Json → Option Json
  | .unreadable => none
  | .array items => do
    let inner ← nesting.enter
    return .array (← values? inner items)
  | .object members => do
    let inner ← nesting.enter
    return .object (Entries.ofList (← memberValues? inner members))
  | .null => some .null
  | .bool b => some (.bool b)
  | .number n => some (.number n)
  | .string s => some (.string s)

/-- The items of an array taken as free-form values. -/
def values? (nesting : Nesting) : List Json → Option (List Json)
  | [] => some []
  | j :: rest => do return (← value? nesting j) :: (← values? nesting rest)

/-- The members of an object taken as free-form values, repeated names included. -/
def memberValues? (nesting : Nesting) : List (String × Json) → Option (List (String × Json))
  | [] => some []
  | (name, j) :: rest => do
    return (name, ← value? nesting j) :: (← memberValues? nesting rest)

end

/-! ### Depth -/

mutual

/-- How deep a document is nested. -/
def depth : Json → Nat
  | .array items => itemsDepth items + 1
  | .object members => membersDepth members + 1
  | _ => 0

/-- How deep the items of an array are nested. -/
def itemsDepth : List Json → Nat
  | [] => 0
  | j :: rest => max j.depth (itemsDepth rest)

/-- How deep the members of an object are nested. -/
def membersDepth : List (String × Json) → Nat
  | [] => 0
  | (_, j) :: rest => max j.depth (membersDepth rest)

end

/-! ### Parts -/

/-- The value of a member, if the document is an object that has it. -/
def member? (j : Json) (name : String) : Option Json :=
  match j with
  | .object members => Entries.get? members name
  | _ => none

/-- The whole number `n`. -/
def ofNat (n : Nat) : Json := .number (.whole n)

/-- The whole number `n`. -/
def ofInt (n : Int) : Json := .number (.whole n)

end Json

end ComponentLint
