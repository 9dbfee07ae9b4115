import ComponentLint.Text.Basic

/-!
# Lines ended by a line feed

Fragments are indented, measured and blanked line by line, and a line ends with `'\n'` there.

## Main definitions

* `Text.lines t` — the lines of `t`, each with the line feed that ends it.
* `Extent` — how much text stands before something: bytes, lines, bytes of the last line.
* `Extent.of t` — the extent of `t`.
-/

namespace ComponentLint

namespace Text

/-- The lines of a text, each with the line feed that ends it.  Nothing follows a final line
feed, and an empty text has no lines. -/
def lines : Text → List Text
  | [] => []
  | c :: t =>
    if c = '\n' then [c] :: lines t
    else
      match lines t with
      | [] => [[c]]
      | l :: ls => (c :: l) :: ls

/-- Nothing is lost between the lines. -/
@[simp] theorem flatten_lines (t : Text) : (lines t).flatten = t := by
  induction t with
  | nil => rfl
  | cons c t ih =>
    rw [lines]
    split
    · rw [List.flatten_cons, ih]
      rfl
    · cases h : lines t with
      | nil =>
        rw [h] at ih
        rw [← ih]
        rfl
      | cons l ls =>
        rw [h, List.flatten_cons] at ih
        rw [List.flatten_cons, List.cons_append, ih]

/-- The characters after the last line feed. -/
def lastLine (t : Text) : Text := (t.reverse.takeWhile (· ≠ '\n')).reverse

end Text

/-- How much text stands before something.  Only `'\n'` ends a line here.  There is no bound on
the numbers; those of a text of less than `2 ^ 32 - 1` bytes have 32 bits. -/
structure Extent where
  /-- Length in bytes. -/
  length : Nat
  /-- Number of lines, at least one. -/
  lines : Nat
  /-- Length of the last line in bytes. -/
  last : Nat
  deriving DecidableEq, Repr

/-- The extent of a text. -/
def Extent.of (t : Text) : Extent where
  length := Text.size t
  lines := t.count '\n' + 1
  last := Text.size (Text.lastLine t)

end ComponentLint
