/-!
# Entries

Maps from names to values that remember the order in which names came.  Putting a value under a
name that is there already replaces the value and keeps the place.

## Main definitions

* `Entries α` — the entries of such a map, in order.
* `Entries.get? e name` — the value under a name.
* `Entries.put e name value` — the map with a value put under a name.
* `Entries.ofList l` — the map after putting the pairs of `l` one after the other.
-/

namespace ComponentLint

/-- Named values in the order in which the names came. -/
abbrev Entries (α : Type) := List (String × α)

namespace Entries

variable {α : Type}

/-- The value under a name. -/
def get? (e : Entries α) (name : String) : Option α := e.lookup name

/-- Whether there is a value under a name. -/
def has (e : Entries α) (name : String) : Bool := e.any (·.1 == name)

/-- Puts a value under a name.  A name that is there already keeps its place. -/
def put (e : Entries α) (name : String) (value : α) : Entries α :=
  if e.has name then e.map fun entry => if entry.1 == name then (name, value) else entry
  else e ++ [(name, value)]

/-- Puts the pairs of a list one after the other. -/
def putAll (e : Entries α) (l : List (String × α)) : Entries α :=
  l.foldl (fun e entry => e.put entry.1 entry.2) e

/-- The map with the pairs of a list put one after the other. -/
def ofList (l : List (String × α)) : Entries α := putAll [] l

end Entries

end ComponentLint
