import ComponentLint.SourceMap.Mappings

/-!
# The steps of reading mappings

What the reader does on each kind of character: a separator ends a segment, and `;` ends a line
too; a digit goes on with a number or ends it; nothing else is accepted.

## Main definitions

* `Mappings.isSeparator c` — `c` ends a segment.
* `Mappings.continues d` — a number goes on after a digit of value `d`.

## Main statements

* `Mappings.Reader.step_comma`, `Mappings.Reader.step_semicolon`, `Mappings.Reader.step_digit` —
  the step on each kind of character.
* `Mappings.Reader.readDigit_of_continues`, `Mappings.Reader.readDigit_of_not_continues` — a digit
  goes on with a number or ends it.
-/

namespace ComponentLint.Mappings

/-- The characters that end a segment. -/
def isSeparator (c : Char) : Bool := c == ',' || c == ';'

/-- Whether a number goes on after a digit of the given value. -/
def continues (digit : Nat) : Bool := digit / 32 % 2 == 1

/-- A separator is not a digit. -/
theorem isSeparator_eq_false_of_digit? {c : Char} {d : Nat} (h : digit? c = some d) :
    isSeparator c = false := by
  rw [isSeparator, Bool.or_eq_false_iff, beq_eq_false_iff_ne, beq_eq_false_iff_ne]
  constructor <;> rintro rfl <;> cases h

namespace Reader

/-- A comma ends the segment. -/
theorem step_comma (r : Reader) :
    r.step ',' = r.endSegment.map fun next => { next with position := r.position + 1 } := by
  rw [step, if_pos rfl]
  cases r.endSegment <;> rfl

/-- A semicolon ends the segment and the line. -/
theorem step_semicolon (r : Reader) :
    r.step ';' =
      r.endSegment.map fun next => { next.endLine with position := r.position + 1 } := by
  rw [step, if_neg (by decide), if_pos rfl]
  cases r.endSegment <;> rfl

/-- A digit is read. -/
theorem step_digit {c : Char} {d : Nat} (r : Reader) (h : digit? c = some d) :
    r.step c =
      (r.readDigit d).map fun next => { next with position := r.position + c.utf8Size } := by
  have hsep := isSeparator_eq_false_of_digit? h
  rw [isSeparator, Bool.or_eq_false_iff, beq_eq_false_iff_ne, beq_eq_false_iff_ne] at hsep
  rw [step, if_neg hsep.1, if_neg hsep.2, h]
  dsimp only
  cases r.readDigit d <;> rfl

/-- Any other character is refused. -/
theorem step_other {c : Char} (r : Reader) (hsep : isSeparator c = false) (h : digit? c = none) :
    r.step c = .error (.invalidCharacter c r.position) := by
  rw [isSeparator, Bool.or_eq_false_iff, beq_eq_false_iff_ne, beq_eq_false_iff_ne] at hsep
  rw [step, if_neg hsep.1, if_neg hsep.2, h]
  rfl

/-- A digit after which the number goes on. -/
theorem readDigit_of_continues {r : Reader} {d : Nat} (h : continues d = true)
    (hshift : r.shift ≤ 30) :
    r.readDigit d =
      .ok { r with value := r.value + (d % 32) <<< r.shift, shift := r.shift + 5 } := by
  rw [readDigit, if_neg (by omega), if_pos (by simpa [continues] using h)]

/-- The last digit of a number. -/
theorem readDigit_of_not_continues {r : Reader} {d : Nat} (h : continues d = false)
    (hshift : r.shift ≤ 30) (hcount : r.count ≠ 5) :
    r.readDigit d =
      .ok { r with
        totals := r.totals.add (difference (r.value + (d % 32) <<< r.shift)) r.count
        count := r.count + 1
        value := 0
        shift := 0 } := by
  rw [readDigit, if_neg (by omega), if_neg (by simpa [continues] using h), if_neg hcount]

end Reader

end ComponentLint.Mappings
